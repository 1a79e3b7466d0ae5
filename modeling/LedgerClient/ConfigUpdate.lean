/-
Updates of a channel's configuration, which collect signatures.

Each signer adds a signature over the update and its own signature header, and
wraps the whole in a new envelope; what was signed before stays as it is.
-/
import LedgerClient.Error
import LedgerClient.Protocol.ChannelConfig
import LedgerClient.Signing

namespace LedgerClient

open Protocol

/-- The update that an envelope carries. -/
def configUpdateOf (envelope : Bytes) : Except DecodeError ConfigUpdateEnvelope := do
  let envelope ← decodeAs Envelope "envelope" envelope
  let payload ← decodeAs Payload "payload" envelope.payload
  let header ← require "payload header" payload.header
  let channelHeader ← decodeAs ChannelHeader "channel header" header.channelHeader
  if channelHeader.type ≠ HeaderType.configUpdate.code then
    throw (.unexpectedHeaderType channelHeader.type .configUpdate)
  decodeAs ConfigUpdateEnvelope "config update envelope" payload.data

namespace Signer

variable (s : Signer) (stamp : Stamp)

/-- The signer's signature over an update. -/
def configSignature (update : Bytes) : ConfigSignature :=
  let header := Wire.encode (s.signatureHeader stamp)
  { signatureHeader := header, signature := s.sign (header ++ update) }

/-- The envelope of an update for a channel with one more signature on it. -/
def signConfigUpdate (channelId : String) (update : ConfigUpdateEnvelope) : Envelope :=
  let signed := { update with
    signatures := update.signatures ++ [s.configSignature stamp update.configUpdate] }
  s.signPayload
    { header := some (s.header stamp .configUpdate channelId "" []), data := Wire.encode signed }

/-- Reads an envelope and signs the update in it. -/
def signEncodedConfigUpdate (channelId : String) (envelope : Bytes) :
    Except DecodeError Envelope := do
  return s.signConfigUpdate stamp channelId (← configUpdateOf envelope)

end Signer

end LedgerClient
