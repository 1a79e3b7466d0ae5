/-
The protocol's enumerations: numbers that travel, and their names.

An enumerated field of a message may hold any number; `ofCode?` finds the
meaning of one that has a meaning.
-/

namespace LedgerClient.Protocol

/-- What an envelope carries. -/
inductive HeaderType where
  | message | config | configUpdate | endorserTransaction | ordererTransaction | deliverSeekInfo
  | chaincodePackage
  deriving DecidableEq, Repr

namespace HeaderType

def all : List HeaderType :=
  [message, config, configUpdate, endorserTransaction, ordererTransaction, deliverSeekInfo,
    chaincodePackage]

def code : HeaderType → Int32
  | message => 0
  | config => 1
  | configUpdate => 2
  | endorserTransaction => 3
  | ordererTransaction => 4
  | deliverSeekInfo => 5
  | chaincodePackage => 6

def name : HeaderType → String
  | message => "MESSAGE"
  | config => "CONFIG"
  | configUpdate => "CONFIG_UPDATE"
  | endorserTransaction => "ENDORSER_TRANSACTION"
  | ordererTransaction => "ORDERER_TRANSACTION"
  | deliverSeekInfo => "DELIVER_SEEK_INFO"
  | chaincodePackage => "CHAINCODE_PACKAGE"

def ofCode? (c : Int32) : Option HeaderType := all.find? (·.code == c)

end HeaderType

/-- What an ordering or deliver service answers. -/
inductive Status where
  | unknown | success | badRequest | forbidden | notFound | requestEntityTooLarge
  | internalServerError | notImplemented | serviceUnavailable
  deriving DecidableEq, Repr

namespace Status

def all : List Status :=
  [unknown, success, badRequest, forbidden, notFound, requestEntityTooLarge,
    internalServerError, notImplemented, serviceUnavailable]

def code : Status → Int32
  | unknown => 0
  | success => 200
  | badRequest => 400
  | forbidden => 403
  | notFound => 404
  | requestEntityTooLarge => 413
  | internalServerError => 500
  | notImplemented => 501
  | serviceUnavailable => 503

def name : Status → String
  | unknown => "UNKNOWN"
  | success => "SUCCESS"
  | badRequest => "BAD_REQUEST"
  | forbidden => "FORBIDDEN"
  | notFound => "NOT_FOUND"
  | requestEntityTooLarge => "REQUEST_ENTITY_TOO_LARGE"
  | internalServerError => "INTERNAL_SERVER_ERROR"
  | notImplemented => "NOT_IMPLEMENTED"
  | serviceUnavailable => "SERVICE_UNAVAILABLE"

def ofCode? (c : Int32) : Option Status := all.find? (·.code == c)

end Status

/-- What a committing peer found about a transaction. -/
inductive ValidationCode where
  | valid | nilEnvelope | badPayload | badCommonHeader | badCreatorSignature
  | invalidEndorserTransaction | invalidConfigTransaction | unsupportedTxPayload
  | badProposalTxid | duplicateTxid | endorsementPolicyFailure | mvccReadConflict
  | phantomReadConflict | unknownTxType | targetChainNotFound | marshalTxError | nilTxaction
  | expiredChaincode | chaincodeVersionConflict | badHeaderExtension | badChannelHeader
  | badResponsePayload | badRwset | illegalWriteset | invalidWriteset | invalidChaincode
  | notValidated | invalidOtherReason
  deriving DecidableEq, Repr

namespace ValidationCode

def all : List ValidationCode :=
  [valid, nilEnvelope, badPayload, badCommonHeader, badCreatorSignature,
    invalidEndorserTransaction, invalidConfigTransaction, unsupportedTxPayload, badProposalTxid,
    duplicateTxid, endorsementPolicyFailure, mvccReadConflict, phantomReadConflict,
    unknownTxType, targetChainNotFound, marshalTxError, nilTxaction, expiredChaincode,
    chaincodeVersionConflict, badHeaderExtension, badChannelHeader, badResponsePayload, badRwset,
    illegalWriteset, invalidWriteset, invalidChaincode, notValidated, invalidOtherReason]

def code : ValidationCode → Int32
  | valid => 0
  | nilEnvelope => 1
  | badPayload => 2
  | badCommonHeader => 3
  | badCreatorSignature => 4
  | invalidEndorserTransaction => 5
  | invalidConfigTransaction => 6
  | unsupportedTxPayload => 7
  | badProposalTxid => 8
  | duplicateTxid => 9
  | endorsementPolicyFailure => 10
  | mvccReadConflict => 11
  | phantomReadConflict => 12
  | unknownTxType => 13
  | targetChainNotFound => 14
  | marshalTxError => 15
  | nilTxaction => 16
  | expiredChaincode => 17
  | chaincodeVersionConflict => 18
  | badHeaderExtension => 19
  | badChannelHeader => 20
  | badResponsePayload => 21
  | badRwset => 22
  | illegalWriteset => 23
  | invalidWriteset => 24
  | invalidChaincode => 25
  | notValidated => 254
  | invalidOtherReason => 255

def name : ValidationCode → String
  | valid => "VALID"
  | nilEnvelope => "NIL_ENVELOPE"
  | badPayload => "BAD_PAYLOAD"
  | badCommonHeader => "BAD_COMMON_HEADER"
  | badCreatorSignature => "BAD_CREATOR_SIGNATURE"
  | invalidEndorserTransaction => "INVALID_ENDORSER_TRANSACTION"
  | invalidConfigTransaction => "INVALID_CONFIG_TRANSACTION"
  | unsupportedTxPayload => "UNSUPPORTED_TX_PAYLOAD"
  | badProposalTxid => "BAD_PROPOSAL_TXID"
  | duplicateTxid => "DUPLICATE_TXID"
  | endorsementPolicyFailure => "ENDORSEMENT_POLICY_FAILURE"
  | mvccReadConflict => "MVCC_READ_CONFLICT"
  | phantomReadConflict => "PHANTOM_READ_CONFLICT"
  | unknownTxType => "UNKNOWN_TX_TYPE"
  | targetChainNotFound => "TARGET_CHAIN_NOT_FOUND"
  | marshalTxError => "MARSHAL_TX_ERROR"
  | nilTxaction => "NIL_TXACTION"
  | expiredChaincode => "EXPIRED_CHAINCODE"
  | chaincodeVersionConflict => "CHAINCODE_VERSION_CONFLICT"
  | badHeaderExtension => "BAD_HEADER_EXTENSION"
  | badChannelHeader => "BAD_CHANNEL_HEADER"
  | badResponsePayload => "BAD_RESPONSE_PAYLOAD"
  | badRwset => "BAD_RWSET"
  | illegalWriteset => "ILLEGAL_WRITESET"
  | invalidWriteset => "INVALID_WRITESET"
  | invalidChaincode => "INVALID_CHAINCODE"
  | notValidated => "NOT_VALIDATED"
  | invalidOtherReason => "INVALID_OTHER_REASON"

def ofCode? (c : Int32) : Option ValidationCode := all.find? (·.code == c)

/-- The name of a code as it stands in a block's transaction filter, one byte a transaction. -/
def nameOfByte (b : UInt8) : String :=
  match ofCode? b.toUInt32.toInt32 with
  | some c => c.name
  | none => "UNKNOWN"

end ValidationCode

/-- The roles a member of an organization can have. -/
inductive Role where
  | member | admin | client | peer | orderer
  deriving DecidableEq, Repr

namespace Role

def all : List Role := [member, admin, client, peer, orderer]

def code : Role → Int32
  | member => 0
  | admin => 1
  | client => 2
  | peer => 3
  | orderer => 4

/-- The name of a role in the text of a policy. -/
def policyName : Role → String
  | member => "member"
  | admin => "admin"
  | client => "client"
  | peer => "peer"
  | orderer => "orderer"

/-- The name of a role in a rendered configuration. -/
def displayName : Role → String
  | member => "MEMBER"
  | admin => "ADMIN"
  | client => "CLIENT"
  | peer => "PEER"
  | orderer => "ORDERER"

def ofCode? (c : Int32) : Option Role := all.find? (·.code == c)

def ofPolicyName? (s : String) : Option Role := all.find? (·.policyName == s)

end Role

end LedgerClient.Protocol
