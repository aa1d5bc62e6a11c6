import ByteChannel.Proofs.Buffered.CoherentCalls

/-!
# Histories of a buffered channel

A channel is made closed, and then opened, used, closed and opened again, perhaps over another
device and with other settings. An act is one thing that can happen to it, and a history is any list
of acts: every state that a channel is ever in is the state after a history.
-/

namespace ByteChannel.Buffered

inductive Act (σ : Type)
  | attach (d : σ) (mode : OpenMode)
  | call (call : Call)
  /-- Counts bytes as read, apart from the call that showed them. -/
  | consume (n : Nat)
  | takeError
  /-- Other settings for the next opening. -/
  | configure (o : Settings)
  | close

variable {σ : Type} [Device σ]

/-- What an act makes of a channel. An act without a result leaves it as it is. -/
def act (c : Buffered σ) : Act σ → Buffered σ
  | .attach d mode =>
    match c.attach d mode with
    | .ok c' => c'
    | .error _ => c
  | .call call => (c.perform call).2
  | .consume n => (c.consume? n).getD c
  | .takeError => c.takeError.2
  | .configure o => { c with settings := o }
  | .close => c.close.2.1

def actAll (c : Buffered σ) : List (Act σ) → Buffered σ
  | [] => c
  | a :: as => (c.act a).actAll as

theorem Coherent.act {c : Buffered σ} (h : Coherent c) (a : Act σ) : Coherent (c.act a) := by
  cases a with
  | attach d mode =>
    cases ha : c.attach d mode with
    | ok c' =>
      simp only [Buffered.act, ha]
      exact coherent_attach ha
    | error e =>
      simp only [Buffered.act, ha]
      exact h
  | call call => exact h.perform call
  | consume n =>
    change Coherent ((c.consume? n).getD c)
    cases hn : c.consume? n with
    | none => exact h
    | some c' => exact h.consume hn
  | takeError => exact h.clearError
  | configure o => exact h.configure o
  | close => exact h.close

theorem Coherent.actAll {c : Buffered σ} (h : Coherent c) (acts : List (Act σ)) :
    Coherent (c.actAll acts) := by
  induction acts generalizing c with
  | nil => exact h
  | cons a acts ih => exact ih (h.act a)

end ByteChannel.Buffered
