import Precall.Lib.Bytes
import Precall.Lib.Decode

namespace Precall.Proto

open ByteLib TextLib DecodeLib

/-!
# Certificate pinning

`PinnedCertVerifier` of `precall-proto/src/pinning.rs` and the TLS handshake that consults it.

* `ServerCertVerifier` — the callbacks the TLS library asks; `ClientConfig.handshake` — the
  library's side: the negotiated version must be one the client offers, and an error of
  `verify_server_cert` or of the version's signature callback aborts;
* `PinnedCertVerifier.toVerifier` — the callbacks of the pinned client;
* `handshake_authentic_iff` — the handshake authenticates the key holder exactly on the flights
  whose signature happens to be valid, because no callback looks at it.

`sha256` and `sigValid` (the CertificateVerify check under the key in a certificate) belong to
crates outside the repository and are parameters.
-/

/-- A protocol version the two ends may negotiate.  A pinned client offers the newer one alone. -/
inductive TlsVersion where
  | tls12
  | tls13
  deriving DecidableEq, Repr

/-- The signature schemes the client offers. -/
inductive SignatureScheme where
  | ecdsaNistp256Sha256
  | ecdsaNistp384Sha384
  | ed25519
  | rsaPssSha256
  | rsaPssSha384
  | rsaPssSha512
  | rsaPkcs1Sha256
  | rsaPkcs1Sha384
  | rsaPkcs1Sha512
  deriving DecidableEq, Repr

/-- Why a handshake was aborted: no common version, or a callback of the verifier refused. -/
inductive TlsError where
  | applicationVerificationFailure
  | peerIncompatible
  deriving DecidableEq, Repr

/-- A signature over the handshake transcript, with the scheme it claims to be made by. -/
structure DigitallySignedStruct where
  scheme : SignatureScheme
  sig : Bytes
  deriving DecidableEq, Repr

/-- Everything of the server's flight that reaches the verifier, all of it chosen by whoever is
    on the network: the version, the certificates, the transcript and the signature. -/
structure ServerFlight where
  version : TlsVersion
  endEntity : Bytes
  intermediates : List Bytes
  serverName : String
  ocspResponse : Bytes
  now : Nat
  message : Bytes
  dss : DigitallySignedStruct

/-- The `ServerCertVerifier` callbacks.  The library calls the first on the chain, and the one of
    the negotiated version on the signature. -/
structure ServerCertVerifier where
  verifyServerCert : (endEntity : Bytes) → (intermediates : List Bytes) → (serverName : String) →
    (ocspResponse : Bytes) → (now : Nat) → Except TlsError Unit
  verifyTls12Signature : (message cert : Bytes) → DigitallySignedStruct → Except TlsError Unit
  verifyTls13Signature : (message cert : Bytes) → DigitallySignedStruct → Except TlsError Unit
  supportedVerifySchemes : List SignatureScheme

/-- The part of a TLS client configuration the handshake depends on: the versions it offers and
    its verifier. -/
structure ClientConfig where
  versions : List TlsVersion
  verifier : ServerCertVerifier

/-- The signature callback of a protocol version.  Both get the message, the certificate and the
    signature. -/
def ServerCertVerifier.verifySignature (v : ServerCertVerifier) :
    TlsVersion → Bytes → Bytes → DigitallySignedStruct → Except TlsError Unit
  | .tls12 => v.verifyTls12Signature
  | .tls13 => v.verifyTls13Signature

/-- The library's side: a version the client did not offer aborts, and so does an error of either
    callback. -/
def ClientConfig.handshake (cfg : ClientConfig) (flight : ServerFlight) : Except TlsError Unit := do
  if flight.version ∉ cfg.versions then throw .peerIncompatible
  cfg.verifier.verifyServerCert flight.endEntity flight.intermediates flight.serverName
    flight.ocspResponse flight.now
  cfg.verifier.verifySignature flight.version flight.message flight.endEntity flight.dss

/-! ### The pinned verifier -/

/-- Accept only the certificate whose SHA-256 fingerprint matches.  The fingerprint is all the
    verifier holds. -/
structure PinnedCertVerifier where
  fingerprint : Vector UInt8 32
  deriving DecidableEq

/-- `PinnedCertVerifier::new` — from the fingerprint in hexadecimal.  The pairs are cut by byte
    index, so a character of several bytes can stop it. -/
def PinnedCertVerifier.new [TextTables] (fingerprintHex : String) :
    Exec String PinnedCertVerifier :=
  let fp := TextTables.toLowercase (trim fingerprintHex)
  match hexPairs fp.toUTF8.toList with
  | .ok v =>
    if h : v.length = 32 then .ok ⟨⟨v.toArray, h⟩⟩
    else fail "fingerprint must be 32 bytes (64 hex chars)"
  | .error (.error .invalidDigit) => fail "bad fingerprint hex: invalid digit found in string"
  | .error .panicked => .error .panicked

variable (sha256 : Bytes → Vector UInt8 32)

/-- The callbacks of the pinned verifier: a fingerprint comparison, and two signature checks that
    assert validity. -/
def PinnedCertVerifier.toVerifier (v : PinnedCertVerifier) : ServerCertVerifier where
  verifyServerCert := fun endEntity _ _ _ _ =>
    if sha256 endEntity = v.fingerprint then .ok () else .error .applicationVerificationFailure
  verifyTls12Signature := fun _ _ _ => .ok ()
  verifyTls13Signature := fun _ _ _ => .ok ()
  supportedVerifySchemes :=
    [.ecdsaNistp256Sha256, .ecdsaNistp384Sha384, .ed25519, .rsaPssSha256, .rsaPssSha384,
      .rsaPssSha512, .rsaPkcs1Sha256, .rsaPkcs1Sha384, .rsaPkcs1Sha512]

/-- `pinned_client_config`, once `PinnedCertVerifier::new` has accepted the fingerprint: TLS 1.3
    only, the pinned verifier, no client authentication. -/
def pinnedClientConfig (v : PinnedCertVerifier) : ClientConfig :=
  { versions := [.tls13], verifier := v.toVerifier sha256 }

/-- The handshake completes on exactly the TLS 1.3 flights that present the pinned certificate.
    Neither the chain, the name, the time nor the signature matters. -/
theorem handshake_ok_iff (v : PinnedCertVerifier) (flight : ServerFlight) :
    (pinnedClientConfig sha256 v).handshake flight = .ok () ↔
      flight.version = .tls13 ∧ sha256 flight.endEntity = v.fingerprint := by
  obtain ⟨version, endEntity, intermediates, serverName, ocsp, now, message, dss⟩ := flight
  cases version with
  | tls12 =>
    have habort : (pinnedClientConfig sha256 v).handshake
        ⟨.tls12, endEntity, intermediates, serverName, ocsp, now, message, dss⟩
          = .error .peerIncompatible := rfl
    simp [habort]
  | tls13 =>
    by_cases hpin : sha256 endEntity = v.fingerprint
    · have hrun : (pinnedClientConfig sha256 v).handshake
          ⟨.tls13, endEntity, intermediates, serverName, ocsp, now, message, dss⟩ = .ok () := by
        simp [ClientConfig.handshake, pinnedClientConfig, PinnedCertVerifier.toVerifier, hpin,
          ServerCertVerifier.verifySignature]
        rfl
      simp [hrun, hpin]
    · have hrun : (pinnedClientConfig sha256 v).handshake
          ⟨.tls13, endEntity, intermediates, serverName, ocsp, now, message, dss⟩
            = .error .applicationVerificationFailure := by
        simp [ClientConfig.handshake, pinnedClientConfig, PinnedCertVerifier.toVerifier, hpin]
        rfl
      simp [hrun, hpin]

/-- Whoever can present the (public) pinned certificate completes the handshake, whatever stands
    in the signature. -/
theorem handshake_ignores_signature (v : PinnedCertVerifier) (flight : ServerFlight)
    (dss : DigitallySignedStruct) :
    (pinnedClientConfig sha256 v).handshake { flight with dss := dss } = .ok () ↔
      (pinnedClientConfig sha256 v).handshake flight = .ok () := by
  rw [handshake_ok_iff, handshake_ok_iff]

/-! ### Authenticating the key holder -/

variable (sigValid : (cert message : Bytes) → DigitallySignedStruct → Bool)

/-- The handshake completes only against the holder of the pinned certificate's key: the
    certificate is the pinned one and the signature is valid under it. -/
def Authentic (v : PinnedCertVerifier) (flight : ServerFlight) : Prop :=
  (pinnedClientConfig sha256 v).handshake flight = .ok () →
    sha256 flight.endEntity = v.fingerprint ∧
      sigValid flight.endEntity flight.message flight.dss = true

/-- **When pinning authenticates.**  The flights that carry the pinned certificate over TLS 1.3
    are authenticated exactly when their signature is valid by itself; all others are refused. -/
theorem handshake_authentic_iff (v : PinnedCertVerifier) (flight : ServerFlight) :
    Authentic sha256 sigValid v flight ↔
      (flight.version = .tls13 → sha256 flight.endEntity = v.fingerprint →
        sigValid flight.endEntity flight.message flight.dss = true) := by
  unfold Authentic
  rw [handshake_ok_iff]
  constructor
  · intro h hver hpin
    exact (h ⟨hver, hpin⟩).2
  · rintro h ⟨hver, hpin⟩
    exact ⟨hpin, h hver hpin⟩

/-- The digest of the five-byte certificate `30 03 02 01 01`. -/
def tinyDigest : Vector UInt8 32 :=
  #v[27, 101, 246, 138, 82, 44, 133, 135, 21, 245, 221, 149, 28, 208, 64, 45, 193, 102, 145, 119,
    136, 20, 191, 7, 89, 130, 43, 122, 37, 116, 33, 208]

/-- An attacker who replays the pinned certificate with a signature under no key at all
    completes the handshake. -/
theorem handshake_forged_signature :
    ¬ Authentic
        (fun der => if der = [0x30, 0x03, 0x02, 0x01, 0x01] then tinyDigest
          else Vector.replicate 32 0)
        (fun _ _ _ => false) ⟨tinyDigest⟩
        { version := .tls13, endEntity := [0x30, 0x03, 0x02, 0x01, 0x01], intermediates := [],
          serverName := "broker", ocspResponse := [], now := 0, message := [0x20],
          dss := ⟨.ed25519, [0x00]⟩ } := by
  intro hauth
  have hdone := hauth ((handshake_ok_iff _ _ _).mpr ⟨rfl, rfl⟩)
  cases hdone.2

end Precall.Proto
