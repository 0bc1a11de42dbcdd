import Mathlib.Algebra.Order.Ring.Int
import Mathlib.Algebra.Order.Ring.Nat
import Mathlib.Data.List.Basic

namespace QuicArt

def add64 (a b : Nat) : Nat := (a + b) % 2 ^ 64

def sub64 (a b : Nat) : Nat := (a + 2 ^ 64 - b) % 2 ^ 64

/-- The fields that `struct lsquic_cfcw` and `struct lsquic_sfcw` share. -/
structure RecvWindow where
  maxRecvOff : Nat := 0
  recvOff : Nat := 0
  readOff : Nat := 0
  lastUpdated : Nat := 0
  maxRecvWin : Nat
  deriving Repr

abbrev Cfcw := RecvWindow

/-- `struct lsquic_sfcw`: a stream is `limited` if there is a window of the connection for it. -/
structure Sfcw extends RecvWindow where
  limited : Bool
  deriving Repr

/-- The clock, the round-trip time and the settings that bound the windows. -/
structure FcEnv where
  now : Nat := 0
  srtt : Nat := 0
  maxSfcw : Nat := 0
  maxCfcw : Nat := 0

namespace RecvWindow

def maybeIncreaseMaxWindow (limit : Nat) (fc : RecvWindow) : RecvWindow :=
  let newMaxWindow := min (fc.maxRecvWin * 2 % 2 ^ 32) limit
  if fc.maxRecvWin < newMaxWindow then { fc with maxRecvWin := newMaxWindow } else fc

/-- The time of an update is noted; one that comes soon after the last makes the window grow. -/
def noteUpdate (env : FcEnv) (limit : Nat) (fc : RecvWindow) : RecvWindow :=
  let sinceLastUpdate := sub64 env.now fc.lastUpdated
  let fc := { fc with lastUpdated := env.now }
  if sinceLastUpdate < env.srtt * 2 % 2 ^ 64 then fc.maybeIncreaseMaxWindow limit else fc

/-- Once less than half of the window is left, the receive offset moves. -/
def offsetsChanged (env : FcEnv) (limit : Nat) (fc : RecvWindow) : RecvWindow × Bool :=
  if fc.maxRecvWin / 2 ≤ sub64 fc.recvOff fc.readOff then (fc, false)
  else
    let fc := fc.noteUpdate env limit
    ({ fc with recvOff := add64 fc.readOff fc.maxRecvWin }, true)

end RecvWindow

namespace Cfcw

def fcOffsetsChanged (env : FcEnv) (fc : Cfcw) : Cfcw × Bool := fc.offsetsChanged env env.maxCfcw

def init (env : FcEnv) (maxRecvWindow : UInt32) : Cfcw :=
  (fcOffsetsChanged env { maxRecvWin := maxRecvWindow.toNat }).1

def incrMaxRecvOff (fc : Cfcw) (incr : Nat) : Cfcw × Bool :=
  if add64 fc.maxRecvOff incr ≤ fc.recvOff then
    ({ fc with maxRecvOff := add64 fc.maxRecvOff incr }, true)
  else (fc, false)

def incrReadOff (fc : Cfcw) (incr : Nat) : Cfcw := { fc with readOff := add64 fc.readOff incr }

end Cfcw

namespace Sfcw

/-- `lsquic_sfcw_fc_offsets_changed`: no window is made larger than that of the connection. -/
def fcOffsetsChanged (env : FcEnv) (cf : Cfcw) (fc : Sfcw) : Sfcw × Bool :=
  let limit := if fc.limited then min env.maxSfcw cf.maxRecvWin else env.maxSfcw
  let (w, changed) := fc.toRecvWindow.offsetsChanged env limit
  ({ fc with toRecvWindow := w }, changed)

def init (env : FcEnv) (cf : Cfcw) (maxRecvWindow : UInt32) (limited : Bool) : Sfcw :=
  (fcOffsetsChanged env cf { maxRecvWin := maxRecvWindow.toNat, limited }).1

def setMaxRecvOff (cf : Cfcw) (fc : Sfcw) (maxRecvOff : Nat) : Cfcw × Sfcw × Bool :=
  if maxRecvOff ≤ fc.recvOff then
    if !fc.limited then (cf, { fc with maxRecvOff }, true)
    else
      match cf.incrMaxRecvOff (sub64 maxRecvOff fc.maxRecvOff) with
      | (cf, true) => (cf, { fc with maxRecvOff }, true)
      | (cf, false) => (cf, fc, false)
  else (cf, fc, false)

def setReadOff (cf : Cfcw) (fc : Sfcw) (off : Nat) : Cfcw × Sfcw :=
  (if fc.limited then cf.incrReadOff (sub64 off fc.readOff) else cf, { fc with readOff := off })

def consumeRem (cf : Cfcw) (fc : Sfcw) : Cfcw × Sfcw := fc.setReadOff cf fc.maxRecvOff

end Sfcw

end QuicArt
