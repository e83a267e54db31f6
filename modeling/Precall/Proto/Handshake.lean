import Precall.Proto.Codec
import Precall.Proto.Metadata

namespace Precall.Proto

/-!
# The handshake

The messages of `precall-proto/src/handshake.rs` that open a session, as far as the two ends read
them.
-/

/-- Wire protocol version.  A hello with another number is rejected. -/
def protocolVersion : UInt16 := 1

/-- How the client proves its identity inside the TLS session.  The broker decides which methods
    it accepts. -/
inductive AuthMethod where
  | psk (token : String)
  | certificate (fingerprint : String)
  | ntlm (user responseB64 : String)
  deriving DecidableEq, Repr

/-- Client to server, immediately after the TLS handshake; `channels` is from its
    capabilities. -/
structure ClientHello where
  protocolVersion : UInt16
  clientId : Uuid
  hostname : String
  auth : AuthMethod
  channels : List ChannelId
  deriving DecidableEq, Repr

/-- Server to client, completing the negotiation. -/
structure ServerHello where
  sessionId : Uuid
  acceptedChannels : List ChannelId
  serverTime100ns : UInt64
  heartbeatIntervalMs : UInt32
  maxFrameBytes : UInt32
  deriving DecidableEq, Repr

end Precall.Proto
