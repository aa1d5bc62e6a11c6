import ByteChannel.Buffered.Basic
import ByteChannel.Proofs.Text.Expanded
import ByteChannel.Proofs.Text.Settled

/-!
# What a channel sends and receives

A text channel expands what it sends and collapses what it receives; any other channel moves bytes
as they are. Here is what this means on files, and that sending and receiving over a reliable device
do just this.
-/

namespace ByteChannel

namespace Text

def encoded (text : Bool) (bs : Bytes) : Bytes := if text then expand bs else bs

def decoded (text : Bool) (bs : Bytes) : Bytes := if text then collapse bs else bs

@[simp] theorem encoded_false (bs : Bytes) : encoded false bs = bs := rfl

@[simp] theorem encoded_true (bs : Bytes) : encoded true bs = expand bs := rfl

@[simp] theorem decoded_false (bs : Bytes) : decoded false bs = bs := rfl

@[simp] theorem decoded_true (bs : Bytes) : decoded true bs = collapse bs := rfl

theorem encoded_append (text : Bool) (as bs : Bytes) :
    encoded text (as ++ bs) = encoded text as ++ encoded text bs := by
  cases text with
  | false => rfl
  | true => exact expand_append as bs

@[simp] theorem encoded_nil (text : Bool) : encoded text [] = [] := by cases text <;> rfl

@[simp] theorem decoded_nil (text : Bool) : decoded text [] = [] := by cases text <;> rfl

theorem decoded_eq_nil_iff (text : Bool) (bs : Bytes) : decoded text bs = [] ↔ bs = [] := by
  cases text with
  | false => exact Iff.rfl
  | true => exact collapse_eq_nil_iff bs

/-- A place where a whole may be cut is one for its parts. -/
theorem decoded_append_of_append {text : Bool} {front mid back : Bytes}
    (h : decoded text (front ++ (mid ++ back)) = decoded text front ++ decoded text (mid ++ back)) :
    decoded text (front ++ mid) = decoded text front ++ decoded text mid := by
  cases text with
  | false => rfl
  | true => exact Whole.of_append h

end Text

open Text

namespace File

/-- The file after output through a channel. An appending channel writes at the end. -/
def sent (f : File) (mode : OpenMode) (text : Bool) (src : Bytes) : File :=
  if src = [] then f else (if mode.append then f.atEnd else f).write (encoded text src)

variable {mode : OpenMode} {text : Bool}

@[simp] theorem sent_nil (f : File) : f.sent mode text [] = f := if_pos rfl

theorem sent_of_ne_nil (f : File) {src : Bytes} (h : src ≠ []) :
    f.sent mode text src = (if mode.append then f.atEnd else f).write (encoded text src) := if_neg h

theorem sent_of_not_append (f : File) (src : Bytes) (h : mode.append = false) :
    f.sent mode text src = f.write (encoded text src) := by
  by_cases hsrc : src = []
  · simp [hsrc]
  · simp [sent_of_ne_nil f hsrc, h]

theorem atEnd_write_atEnd (f : File) (src : Bytes) :
    (f.atEnd.write src).atEnd = f.atEnd.write src := by
  by_cases h : src = []
  · simp [h, atEnd]
  · have hl := congrArg List.length (f.write_atEnd src)
    rw [atEnd, hl, List.length_append]
    rw [write_of_ne_nil _ h]
    rfl

/-- Output in two pieces is output in one. -/
theorem sent_append (f : File) (first second : Bytes) :
    (f.sent mode text first).sent mode text second = f.sent mode text (first ++ second) := by
  by_cases hf : first = []
  · simp [hf]
  by_cases hs : second = []
  · simp [hs]
  have hfs : first ++ second ≠ [] := by simp [hf]
  rw [sent_of_ne_nil f hf, sent_of_ne_nil _ hs, sent_of_ne_nil f hfs, encoded_append,
    ← write_append]
  by_cases ha : mode.append = true
  · rw [if_pos ha, if_pos ha, atEnd_write_atEnd]
  · rw [if_neg ha, if_neg ha]

theorem length_le_sent (f : File) (src : Bytes) :
    f.bytes.length ≤ (f.sent mode text src).bytes.length := by
  by_cases h : src = []
  · simp [h]
  rw [sent_of_ne_nil f h]
  by_cases ha : mode.append = true
  · rw [if_pos ha]
    exact f.atEnd.length_le_write _
  · rw [if_neg ha]
    exact f.length_le_write _

end File

/-- All the input to come where `u` is unread and the device shows `f`. -/
def File.coming (f : File) (text : Bool) (u : Bytes) : Bytes := u ++ decoded text f.rest

theorem File.coming_eq_nil_iff (f : File) (text : Bool) (u : Bytes) :
    f.coming text u = [] ↔ u = [] ∧ f.rest = [] := by
  rw [coming, List.append_eq_nil_iff, decoded_eq_nil_iff]

/-- Between `u` unread before `f` and `u'` unread before `f'` lies the input `bs`. What `u` does not
make up of it comes from the stretch that the device has moved over. -/
def Taken (text : Bool) (u : Bytes) (f : File) (bs u' : Bytes) (f' : File) : Prop :=
  ∃ k ≤ f.rest.length, f' = f.advance k ∧ f.coming text u = bs ++ f'.coming text u' ∧
    u ++ decoded text (f.rest.take k) = bs ++ u'

namespace Taken

variable {text : Bool} {u u' u'' bs bs' : Bytes} {f f' f'' : File}

theorem stay (f : File) (h : u = bs ++ u') : Taken text u f bs u' f :=
  ⟨0, Nat.zero_le _, rfl, by rw [h, File.coming, File.coming, List.append_assoc],
    by rw [h, List.take_zero, decoded_nil, List.append_nil]⟩

/-- The stretch that the device has moved over is not parted from what follows. -/
theorem decoded_rest {k : Nat} (hcoming : f.coming text u = bs ++ (f.advance k).coming text u')
    (hcut : u ++ decoded text (f.rest.take k) = bs ++ u') :
    decoded text f.rest = decoded text (f.rest.take k) ++ decoded text (f.rest.drop k) := by
  rw [File.coming, File.coming, File.rest_advance, ← List.append_assoc, ← hcut,
    List.append_assoc] at hcoming
  exact List.append_cancel_left hcoming

theorem trans (h : Taken text u f bs u' f') (h' : Taken text u' f' bs' u'' f'') :
    Taken text u f (bs ++ bs') u'' f'' := by
  obtain ⟨k, hk, rfl, he, hcut⟩ := h
  obtain ⟨k', hk', rfl, he', hcut'⟩ := h'
  refine ⟨k + k', ?_, f.advance_advance k k', ?_, ?_⟩
  · rw [File.rest_advance, List.length_drop] at hk'
    omega
  · rw [he, he', List.append_assoc]
  · have hd := decoded_rest he hcut
    rw [File.rest_advance] at hcut'
    have hwhole : decoded text (f.rest.take k ++
        ((f.rest.drop k).take k' ++ (f.rest.drop k).drop k')) = decoded text (f.rest.take k) ++
          decoded text ((f.rest.drop k).take k' ++ (f.rest.drop k).drop k') := by
      rw [List.take_append_drop, List.take_append_drop]
      exact hd
    rw [List.take_add, decoded_append_of_append hwhole, ← List.append_assoc, hcut,
      List.append_assoc, hcut', List.append_assoc]

/-- What was taken may as well stay unread. -/
theorem split (h : Taken text [] f (bs ++ u') [] f') : Taken text [] f bs u' f' := by
  obtain ⟨k, hk, hf, he, hcut⟩ := h
  refine ⟨k, hk, hf, ?_, hcut.trans (List.append_nil _)⟩
  rw [he, List.append_assoc]
  rfl

/-- The first byte that stays unread is the next one to come, if only the end leaves none. -/
theorem head?_coming (h : Taken text u f [] u' f') (he : u' = [] → f'.rest = []) :
    u'.head? = (f.coming text u).head? := by
  obtain ⟨k, _, _, hcoming, _⟩ := h
  rw [hcoming, List.nil_append, File.coming, List.head?_append]
  cases hu : u' with
  | nil => rw [he hu, decoded_nil]; rfl
  | cons b bs => rfl

theorem rest_eq_nil (h : Taken text u f bs u' f') (hf : f.rest = []) : f'.rest = [] := by
  obtain ⟨k, _, rfl, _, _⟩ := h
  rw [File.rest_advance, hf, List.drop_nil]

theorem bytes_eq (h : Taken text u f bs u' f') : f'.bytes = f.bytes := by
  obtain ⟨k, _, rfl, _, _⟩ := h
  rfl

end Taken

namespace Buffered

open Reliable

variable {σ : Type} [Device σ] [Reliable σ] {d : σ} {f : File}

/-- Something is received unless there is nothing, and bytes as they are come in full. -/
theorem receive_shows (hs : Shows d f) (text : Bool) (n : Nat)
    (hlen : text = true → f.bytes.length ≤ top σ) :
    ∃ bs d' f', receive d text n = (⟨bs, none⟩, d') ∧ Shows d' f' ∧ Taken text [] f bs [] f' ∧
      (bs = [] → n = 0 ∨ f.rest = []) ∧ (text = false → bs = f.rest.take n) := by
  cases text with
  | false =>
    obtain ⟨d', hr, hd'⟩ := readFully_shows hs n
    refine ⟨_, d', _, hr, hd', ⟨_, List.length_take_le' _ _, rfl, ?_, ?_⟩, ?_, fun _ => rfl⟩
    · rw [File.coming, File.coming, File.rest_advance]
      exact (List.prefix_iff_eq_append.1 (List.take_prefix n f.rest)).symm
    · rw [decoded_false, List.length_take, ← List.take_eq_take_min, List.append_nil]
      rfl
    · exact List.take_eq_nil_iff.1
  | true =>
    obtain ⟨k, hk, hr, hw, hd', _⟩ := readCollapsed_settled hs (hlen rfl) n
    refine ⟨_, _, _, Prod.ext hr rfl, hd', ⟨k, hk, rfl, ?_, (List.append_nil _).symm⟩, ?_,
      fun h => by cases h⟩
    · rw [List.nil_append, Whole, List.take_append_drop] at hw
      rw [File.coming, File.coming, File.rest_advance]
      exact hw
    · intro hb
      by_cases hn : n = 0
      · exact .inl hn
      · refine .inr (rest_eq_nil_of_readCollapsed hs hn ?_)
        rw [hr]
        exact hb

/-- All of a piece is sent. -/
theorem send_shows (hs : Shows d f) (mode : OpenMode) (t : Option Expander) {src : Bytes}
    (hsrc : src ≠ []) (hlen : mode.append = true → f.bytes.length ≤ top σ) :
    ∃ t' d', send d t mode.append src = (⟨src.length, none⟩, t', d') ∧ t'.isSome = t.isSome ∧
      Shows d' (f.sent mode t.isSome src) := by
  obtain ⟨pos, d₁, hm, hd₁⟩ : ∃ pos d₁, (if mode.append then Device.seek d (.finish 0)
      else (.ok 0, d)) = (.ok pos, d₁) ∧ Shows d₁ (if mode.append then f.atEnd else f) := by
    by_cases ha : mode.append = true
    · obtain ⟨d₁, hm, hd₁⟩ := seek_end_shows hs (hlen ha)
      rw [if_pos ha, if_pos ha]
      exact ⟨_, d₁, hm, hd₁⟩
    · rw [if_neg ha, if_neg ha]
      exact ⟨0, d, rfl, hs⟩
  rw [File.sent_of_ne_nil f hsrc]
  unfold send
  simp only [hm]
  cases t with
  | none =>
    obtain ⟨d', hw, hd'⟩ := writeFully_shows hd₁ src
    exact ⟨none, d', by rw [hw], rfl, hd'⟩
  | some t =>
    obtain ⟨t', d', hw, hd'⟩ := t.write_shows hd₁ src
    exact ⟨some t', d', by simp only [hw], rfl, hd'⟩

end Buffered

end ByteChannel
