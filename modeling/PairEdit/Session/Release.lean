import PairEdit.Session.World

/-!
# Letting go

A party lives as long as somebody can still make a call to it: its host, or a
hook.  A document lives as long as its host, a live session or a hook can still
reach it, and its hook lives no longer than the document.  What nobody can reach
any more goes without a word: a party stops capturing and nothing can be sent to
it.  Things that only reach each other stay.

The host lets go of a party or a document by name.  A hook lets go of what its
calls are about one call at a time, as each of them has been made, and a session
lets go of its document when it ends.
-/

namespace PairEdit.Session.World

/-- The calls that hooks will still make, or are making. -/
def awaitedCalls (w : World) : List Call :=
  w.underway ++ w.surfaces.slots.flatMap fun s =>
    match s.hook with
    | some hook => hook.calls
    | none => []

/-- Whether a party can still be called. -/
def holdsParty (w : World) (p : Nat) : Bool :=
  !(w.party p).released || w.awaitedCalls.any fun c => c.party? == some p

/-- Whether a document can still be reached. -/
def holdsDocument (w : World) (d : Nat) : Bool :=
  !(w.surfaces.get d).released || (w.awaitedCalls.any fun c => c.document? == some d) ||
    w.parties.slots.any fun party => party.phase.document == some d

/-- Take down a document that cannot be reached: its hook is all that is left of
it to matter. -/
def forgetDocument (w : World) (d : Nat) : World :=
  if w.holdsDocument d then w else w.setHook d none

/-- Take down a party that cannot be called.  It says nothing to anybody. -/
def forgetParty (w : World) (p : Nat) : World :=
  if w.holdsParty p then w
  else
    let w := w.vacate p
    { w with network := w.network.release (w.party p).endpoint }

/-- Take down what cannot be reached now. -/
def sweep (w : World) : World :=
  w.parties.indices.foldl forgetParty (w.surfaces.indices.foldl forgetDocument w)

/-- Sweep a number of times. -/
def sweeps : Nat → World → World
  | 0, w => w
  | n + 1, w => sweeps n w.sweep

/-- Take down all that cannot be reached, directly or after something else is
gone.  A sweep that finds something takes a hook or a party down, so there are
no more of them than documents and parties. -/
def collect (w : World) : World :=
  sweeps (w.surfaces.slots.length + w.parties.slots.length) w

/-! ## The host -/

/-- Let go of a party. -/
def release (w : World) (p : Nat) : World :=
  (w.modifyParty p fun party => { party with released := true }).collect

/-- Let go of a document. -/
def releaseDocument (w : World) (d : Nat) : World :=
  { w with surfaces := w.surfaces.modify d fun s => { s with released := true } }.collect

/-- Let go of an endpoint. -/
def releaseEndpoint (w : World) (id : Nat) : World :=
  { w with network := w.network.release id }

/-! ## Hooks -/

/-- Arm a document with a hook, in place of one it may have. -/
def arm (w : World) (d : Nat) (hook : Hook) : World :=
  (w.setHook d (some hook)).collect

/-- Take the hook off a document to make its calls. -/
def fire (w : World) (d : Nat) (hook : Hook) : World :=
  { w.setHook d none with underway := hook.calls ++ w.underway }

/-- The first of the calls under way has been made. -/
def callDone (w : World) : World :=
  { w with underway := w.underway.tail }.collect

/-! ## Sessions -/

/-- Leave the phase for idleness, and capture nothing any more.  A document that
only the session still reached is gone with it. -/
def leave (w : World) (p : Nat) : World :=
  match (w.phase p).document with
  | some d =>
      if (w.surfaces.get d).released then (w.vacate p).collect else w.vacate p
  | none => w.vacate p

/-- When the host still holds the document, nothing else is let go of. -/
theorem leave_eq_vacate (w : World) (p : Nat)
    (h : ∀ d, (w.phase p).document = some d → (w.surfaces.get d).released = false) :
    w.leave p = w.vacate p := by
  unfold leave
  split
  · next d hd => simp [h d hd]
  · rfl

end PairEdit.Session.World
