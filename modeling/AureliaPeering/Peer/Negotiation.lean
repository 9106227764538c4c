import AureliaPeering.Config.DomusConfig
import AureliaPeering.Peer.PeerState
import AureliaPeering.Wire.Payloads

/-!
The values that a blob hello and its answer agree on.
-/

namespace AureliaPeering.Peer

open Config Wire

def blobHelloValues : HelloPayload → Except AureliaError (Nat × Nat)
  | .blob chunk window =>
    if chunk = 0 ∨ window = 0 then .error (.new .protocolViolation) else .ok (chunk, window)
  | .primary => .error (.new .protocolViolation)

def validateBlobHelloRequest (hello : HelloPayload) : Except AureliaError (Nat × Nat) :=
  blobHelloValues hello

def validateBlobHelloResponse (proposedChunk proposedWindow : Nat) (hello : HelloPayload) :
    Except AureliaError BlobCallisSettings :=
  match blobHelloValues hello with
  | .error error => .error error
  | .ok (agreedChunk, agreedWindow) =>
    if proposedChunk < agreedChunk ∨ proposedWindow < agreedWindow then
      .error (.new .protocolViolation)
    else .ok ⟨agreedChunk, agreedWindow⟩

def negotiateBlobSettings (proposedChunk proposedWindow cfgChunk cfgWindow : Nat) :
    BlobCallisSettings :=
  ⟨min proposedChunk cfgChunk, min proposedWindow cfgWindow⟩

/-- The blob hello that a dialler sends with its configuration. -/
def blobHello (config : DomusConfig) : HelloPayload :=
  .blob config.blobWindow.chunkSize config.blobWindow.ackWindow

/-- What the accepting side settles on when it reads a hello. -/
def answerBlobHello (config : DomusConfig) (hello : HelloPayload) :
    Except AureliaError BlobCallisSettings :=
  (validateBlobHelloRequest hello).map fun (chunk, window) =>
    negotiateBlobSettings chunk window config.blobWindow.chunkSize config.blobWindow.ackWindow

def blobHelloResponse (settings : BlobCallisSettings) : HelloPayload :=
  .blob settings.chunkSize settings.ackWindowChunks

theorem answerBlobHello_cases {config : DomusConfig} {hello : HelloPayload}
    {settings : BlobCallisSettings} (answered : answerBlobHello config hello = .ok settings) :
    ∃ chunk window, hello = .blob chunk window ∧ chunk ≠ 0 ∧ window ≠ 0 ∧
      settings = negotiateBlobSettings chunk window config.blobWindow.chunkSize
        config.blobWindow.ackWindow := by
  cases hello with
  | primary => cases answered
  | blob chunk window =>
    simp only [answerBlobHello, validateBlobHelloRequest, blobHelloValues] at answered
    split at answered
    · cases answered
    · next nonzero =>
        cases answered
        exact ⟨chunk, window, rfl, fun zero => nonzero (.inl zero),
          fun zero => nonzero (.inr zero), rfl⟩

end AureliaPeering.Peer
