/-
Envelopes: a signed payload, its header and the two headers inside that.
-/
import LedgerClient.Wire.Typed

namespace LedgerClient.Protocol

open Wire Wire.Message

structure Timestamp where
  seconds : Int64 := 0
  nanos : Int32 := 0
  deriving DecidableEq, Repr

instance : Typed Timestamp where
  type := .timestamp
  ofMessage m := ⟨m.int64 1, m.int32 2⟩
  toMessage t := ofInt64 1 t.seconds ++ ofInt32 2 t.nanos

/-- A payload and the signature over it. -/
structure Envelope where
  payload : Bytes := []
  signature : Bytes := []
  deriving DecidableEq, Repr

instance : Typed Envelope where
  type := .envelope
  ofMessage m := ⟨m.bytes 1, m.bytes 2⟩
  toMessage e := ofBytes 1 e.payload ++ ofBytes 2 e.signature

/-- The encoded channel header and signature header. -/
structure Header where
  channelHeader : Bytes := []
  signatureHeader : Bytes := []
  deriving DecidableEq, Repr

instance : Typed Header where
  type := .header
  ofMessage m := ⟨m.bytes 1, m.bytes 2⟩
  toMessage h := ofBytes 1 h.channelHeader ++ ofBytes 2 h.signatureHeader

structure Payload where
  header : Option Header := none
  data : Bytes := []
  deriving DecidableEq, Repr

instance : Typed Payload where
  type := .payload
  ofMessage m := ⟨m.typed? Header 1, m.bytes 2⟩
  toMessage p := ofTyped? 1 p.header ++ ofBytes 2 p.data

structure ChannelHeader where
  type : Int32 := 0
  version : Int32 := 0
  timestamp : Option Timestamp := none
  channelId : String := ""
  txId : String := ""
  epoch : UInt64 := 0
  extension : Bytes := []
  tlsCertHash : Bytes := []
  deriving DecidableEq, Repr

instance : Typed ChannelHeader where
  type := .channelHeader
  ofMessage m :=
    ⟨m.int32 1, m.int32 2, m.typed? Timestamp 3, m.text 4, m.text 5, m.uint64 6, m.bytes 7,
      m.bytes 8⟩
  toMessage h :=
    ofInt32 1 h.type ++ ofInt32 2 h.version ++ ofTyped? 3 h.timestamp ++ ofText 4 h.channelId
      ++ ofText 5 h.txId ++ ofUInt64 6 h.epoch ++ ofBytes 7 h.extension ++ ofBytes 8 h.tlsCertHash

structure SignatureHeader where
  creator : Bytes := []
  nonce : Bytes := []
  deriving DecidableEq, Repr

instance : Typed SignatureHeader where
  type := .signatureHeader
  ofMessage m := ⟨m.bytes 1, m.bytes 2⟩
  toMessage h := ofBytes 1 h.creator ++ ofBytes 2 h.nonce

end LedgerClient.Protocol
