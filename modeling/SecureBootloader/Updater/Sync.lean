import SecureBootloader.Updater.Main

/-!
# `syncWithBootloader` of `index.ts`

The sync sequence is written without a frame, then the packets are looked at once a second.
Behind it `main` clears the receive buffer and begins the update.
-/

namespace SecureBootloader.Updater

/-- `SYNC_SEQ`. -/
def syncSeq : List Byte := [0xc4, 0x55, 0x7e, 0x10]

/-- `DEFAULT_TIMEOUT_MS`. -/
def defaultTimeoutMs : Nat := 5000

inductive SyncPhase where
  | waiting
  | synced
  | exited
  deriving DecidableEq, Repr

/-- The host in `syncWithBootloader`, waiting for the end of a `delay`. -/
structure SyncState where
  link : HostLink
  timeWaited : Nat
  phase : SyncPhase
  deriving DecidableEq, Repr

/-- A second is over: what follows up to the next `delay`, and the bytes written. -/
def syncDelay (s : SyncState) : SyncState × List Byte :=
  match s.phase with
  | .waiting =>
    let s := { s with timeWaited := s.timeWaited + 1000 }
    match s.link.packets with
    | packet :: packets =>
      let s := { s with link := { s.link with packets := packets } }
      if isSingleBytePacket packet blPacketSyncObservedData0 then
        ({ s with phase := .synced }, [])
      else ({ s with phase := .exited }, [])
    | [] =>
      if defaultTimeoutMs ≤ s.timeWaited then ({ s with phase := .exited }, [])
      else (s, syncSeq)
  | _ => (s, [])

/-- A `data` event. After `process.exit` there is none. -/
def syncData (s : SyncState) (data : List Byte) : SyncState × Trace :=
  match s.phase with
  | .exited => (s, [])
  | _ =>
    let (link, obs) := onData s.link data
    ({ s with link := link }, obs)

/-- `main` behind the synchronisation, before the update request. -/
def SyncState.begins (s : SyncState) (fwImage : List Byte) : MainState :=
  ⟨.fwUpdateReq, ⟨{ s.link with rxBuffer := [] }, fwImage, 0, .transfer⟩⟩

end SecureBootloader.Updater
