/-
Endpoints: where a node of the settings is reached.
-/
import LedgerClient.Endpoint.Authority
import LedgerClient.Endpoint.ServerName
import LedgerClient.Endpoint.Uri
import LedgerClient.Settings.Basic
import LedgerClient.Text.Search

namespace LedgerClient

/-- The address of a node. One without a scheme gets the one that says whether TLS is used. -/
def NodeSettings.address (n : NodeSettings) : String :=
  if Text.occurs "://" n.url then n.url
  else if n.useTls then "https://" ++ n.url
  else "http://" ++ n.url

/-- What TLS needs to reach a node: the authorities that are given for it have to be `readable`, as
the TLS library has it, and the node needs a name that it can prove to have. -/
def NodeSettings.checkTls (n : NodeSettings) (readable : String → Bool) (uri : Uri) :
    Except ClientError Unit :=
  match n.serverName <|> uri.host with
  | none => .error (.serverName "")
  | some name =>
    if n.authorityPem.any (!readable ·) then .error (.transport "transport error")
    else if ServerName.isValid name then .ok ()
    else .error (.serverName name)

/-- The endpoint of a node. -/
def NodeSettings.endpoint (n : NodeSettings) (readable : String → Bool := Authority.isReadable) :
    Except ClientError Uri :=
  match Uri.parse? n.address with
  | none => .error (.config (.invalidEndpoint n.address))
  | some uri => if n.useTls then (fun _ => uri) <$> n.checkTls readable uri else .ok uri

/-- All nodes of the settings can be reached in principle; otherwise the first that cannot. -/
def Settings.checkEndpoints (s : Settings) (readable : String → Bool := Authority.isReadable) :
    Except ClientError Unit :=
  s.nodes.forM fun (_, n) => do
    let _ ← n.endpoint readable

end LedgerClient
