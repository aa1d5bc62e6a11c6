import ByteChannel.Proofs.Buffered.Failing
import ByteChannel.Proofs.Buffered.RoundTrip

/-!
# Giving up what was read ahead

Output, a flush and a seek give up unread input first and go on as they would without any. A device
that cannot go back over all of it refuses: then a failure is latched, and the device stays where it
is. What the operation does after that is the same whether a failure is latched or not.
-/

namespace ByteChannel

open Reliable Text

namespace Buffered

variable {σ : Type} {c : Buffered σ}

/-! ## Output behind a failure -/

theorem openPut_failing (c : Buffered σ) (e : IoError) :
    (c.failing e).openPut = c.openPut.failing e := by
  rw [openPut_spec, openPut_spec]
  rfl

/-- What goes well without a failure latched goes well with one, which stays. -/
theorem behind_failure {α : Type} {f : Buffered σ → α × Buffered σ} {a : α} {c' : Buffered σ}
    (hfailing : ∀ e, f (Buffered.failing { c with error := none } e) =
      ((f { c with error := none }).1, (f { c with error := none }).2.failing e))
    (hop : f { c with error := none } = (a, c')) (hquiet : c'.error = none) :
    ∃ c₁, f c = (a, c₁) ∧ c₁.error = c.error ∧ { c₁ with error := none } = c' := by
  cases he : c.error with
  | none =>
    rw [clearError_eq he] at hop
    exact ⟨c', hop, hquiet, clearError_eq hquiet⟩
  | some e =>
    refine ⟨c'.failing e, ?_, rfl, clearError_eq hquiet⟩
    rw [eq_failing he, hfailing, hop]

variable [Device σ]

theorem yieldInput_failing (c : Buffered σ) (e : IoError) :
    (c.failing e).yieldInput = c.yieldInput.failing e := by
  unfold Buffered.yieldInput
  by_cases hr : c.mode.isReadable = true
  · rw [if_pos hr, if_pos (show (c.failing e).mode.isReadable = true from hr)]
    unfold discardInput
    rw [device_failing]
    cases c.device with
    | none => rfl
    | some d =>
      by_cases hu : 0 < c.unreadCount
      · simp only [if_pos hu, if_pos (show 0 < (c.failing e).unreadCount from hu)]
        rfl
      · simp only [if_neg hu, if_neg (show ¬0 < (c.failing e).unreadCount from hu)]
        rfl
  · rw [if_neg hr, if_neg (show ¬(c.failing e).mode.isReadable = true from hr)]

theorem sync_failing (c : Buffered σ) (e : IoError) :
    (c.failing e).sync = (c.sync.1, c.sync.2.failing e) := by
  rw [sync_eq, sync_eq]
  by_cases hp : 0 < c.put.consumed
  · rw [if_pos hp, if_pos (show 0 < (c.failing e).put.consumed from hp), writePending_failing]
    rfl
  · rw [if_neg hp, if_neg (show ¬0 < (c.failing e).put.consumed from hp), yieldInput_failing]

theorem overflow_failing (c : Buffered σ) (e : IoError) (b : UInt8) :
    (c.failing e).overflow b = ((c.overflow b).1, (c.overflow b).2.failing e) := by
  rw [Buffered.overflow, Buffered.overflow]
  by_cases hw : c.canWrite = false
  · rw [if_pos hw, if_pos (show (c.failing e).canWrite = false from hw)]
  rw [if_neg hw, if_neg (show ¬(c.failing e).canWrite = false from hw)]
  by_cases hb : c.buffer = []
  · rw [if_pos hb, if_pos (show (c.failing e).buffer = [] from hb)]
    have hwrite : (c.failing e).yieldInput.writeDirect [b] =
        ((c.yieldInput.writeDirect [b]).1, (c.yieldInput.writeDirect [b]).2.failing e) := by
      rw [yieldInput_failing, writeDirect_failing]
    exact congrArg (fun r : Nat × Buffered σ => (r.1 == 1, r.2)) hwrite
  · rw [if_neg hb, if_neg (show ¬(c.failing e).buffer = [] from hb), openPut_failing, sync_failing]
    rcases c.openPut.sync with ⟨_ | _, c'⟩ <;> rfl

theorem writeByte_failing (c : Buffered σ) (e : IoError) (b : UInt8) :
    (c.failing e).writeByte b = ((c.writeByte b).1, (c.writeByte b).2.failing e) := by
  rw [Buffered.writeByte, Buffered.writeByte, overflow_failing]
  by_cases ha : 0 < c.put.available ∧ c.canWrite = true
  · rw [if_pos ha, if_pos (show 0 < (c.failing e).put.available ∧ (c.failing e).canWrite = true
      from ha)]
    rfl
  · rw [if_neg ha, if_neg (show ¬(0 < (c.failing e).put.available ∧ (c.failing e).canWrite = true)
      from ha)]

theorem store_failing (c : Buffered σ) (e : IoError) (src : Bytes) :
    (c.failing e).store src = ((c.store src).1, (c.store src).2.failing e) := by
  fun_induction Buffered.store c src with
  | case1 c => rw [Buffered.store]
  | case2 c b bs ha k more ih =>
    have hplace : (c.failing e).place ((b :: bs).take k) = (c.place ((b :: bs).take k)).failing e :=
      rfl
    rw [Buffered.store, if_pos (show 0 < (c.failing e).put.available from ha)]
    change (k + (((c.failing e).place ((b :: bs).take k)).store ((b :: bs).drop k)).1,
      (((c.failing e).place ((b :: bs).take k)).store ((b :: bs).drop k)).2) = _
    rw [hplace, ih]
  | case3 c b bs ha r hr more ih =>
    rw [Buffered.store, if_neg (show ¬0 < (c.failing e).put.available from ha), overflow_failing]
    change (if r.1 = true then
      (((r.2.failing e).store bs).1 + 1, ((r.2.failing e).store bs).2) else (0, r.2.failing e)) = _
    rw [if_pos hr, ih]
  | case4 c b bs ha r hr =>
    rw [Buffered.store, if_neg (show ¬0 < (c.failing e).put.available from ha), overflow_failing]
    simp only [show c.overflow b = r from rfl, hr, if_false, Bool.false_eq_true]

/-- A piece goes past the buffer, or into it from where no input is unread. -/
theorem write_eq (hw : c.canWrite = true) (src : Bytes) :
    c.write src = if c.buffer.length < src.length then
      if { c with pushedBack := false }.sync.1 then
        Buffered.writeDirect { c with pushedBack := false }.sync.2 src
      else (0, { c with pushedBack := false }.sync.2)
    else
      let emptied := Buffered.yieldInput { c with pushedBack := false }
      (if emptied.buffer = [] then emptied else emptied.openPut).store src := by
  rw [Buffered.write, if_neg (by simp [hw])]
  rfl

theorem write_failing (c : Buffered σ) (e : IoError) (src : Bytes) :
    (c.failing e).write src = ((c.write src).1, (c.write src).2.failing e) := by
  by_cases hw : c.canWrite = false
  · rw [Buffered.write, Buffered.write, if_pos hw,
      if_pos (show (c.failing e).canWrite = false from hw)]
  simp only [Bool.not_eq_false] at hw
  rw [write_eq hw, write_eq (show (c.failing e).canWrite = true from hw)]
  have hput : ({ c.failing e with pushedBack := false } : Buffered σ) =
      Buffered.failing { c with pushedBack := false } e := rfl
  have hbuffer : (c.failing e).buffer = c.buffer := rfl
  rw [hput, hbuffer]
  generalize ({ c with pushedBack := false } : Buffered σ) = c'
  by_cases hl : c.buffer.length < src.length
  · rw [if_pos hl, if_pos hl, sync_failing]
    by_cases hs : c'.sync.1 = true
    · rw [if_pos hs, if_pos hs, writeDirect_failing]
    · rw [if_neg hs, if_neg hs]
  · rw [if_neg hl, if_neg hl, yieldInput_failing]
    simp only
    by_cases hb : c'.yieldInput.buffer = []
    · rw [if_pos hb, if_pos (show (c'.yieldInput.failing e).buffer = [] from hb), store_failing]
    · rw [if_neg hb, if_neg (show ¬(c'.yieldInput.failing e).buffer = [] from hb),
        openPut_failing, store_failing]

/-! ## Sessions behind a failure -/

/-- Only lost output takes the failure. -/
theorem flush_failing (hok : c.sync.1 = true) (e : IoError) :
    (c.failing e).flush = (c.flush.1, c.flush.2.failing e) := by
  rw [Buffered.flush, Buffered.flush, sync_failing]
  by_cases ho : c.isOpen = false
  · rw [if_pos ho, if_pos (show (c.failing e).isOpen = false from ho)]
  · rw [if_neg ho, if_neg (show ¬(c.failing e).isOpen = false from ho)]
    simp only [hok, if_true]

theorem seek_failing (hok : (sync { c with pushedBack := false }).1 = true) (e : IoError)
    (o : Origin) : (c.failing e).seek o = ((c.seek o).1, (c.seek o).2.failing e) := by
  have hput : ({ c.failing e with pushedBack := false } : Buffered σ) =
      Buffered.failing { c with pushedBack := false } e := rfl
  rw [Buffered.seek, Buffered.seek, hput, sync_failing]
  by_cases ho : c.isOpen = false
  · rw [if_pos ho, if_pos (show (c.failing e).isOpen = false from ho)]
  · rw [if_neg ho, if_neg (show ¬(c.failing e).isOpen = false from ho)]
    simp only [hok, if_true, device_failing]
    cases (sync { c with pushedBack := false }).2.device <;> rfl

theorem installBuffer_failing (hok : c.sync.1 = true) (e : IoError) (buffer : Bytes) :
    (c.failing e).installBuffer buffer =
      ((c.installBuffer buffer).1, (c.installBuffer buffer).2.failing e) := by
  have hunread : (c.failing e).unreadCount = c.unreadCount := rfl
  have hopen : (c.failing e).isOpen = c.isOpen := rfl
  rw [Buffered.installBuffer, Buffered.installBuffer, hunread, hopen, sync_failing]
  by_cases hu : c.unreadCount ≠ 0
  · rw [if_pos hu, if_pos hu]
  · rw [if_neg hu, if_neg hu]
    by_cases ho : c.isOpen = true
    · simp only [if_pos ho, hok, if_true]
      rfl
    · simp only [if_neg ho, if_true]
      rfl

/-! ## Nothing unread -/

theorem discardInput_of_unread {d : σ} (hd : c.device = some d) (hu : 0 < c.unreadCount) :
    c.discardInput =
      let r := Device.seek d (.current (-c.unreadSpan))
      { Buffered.latch { c with device := some r.2 } (failure? r.1) with
        filled := 0
        get := .empty
        onCell := false } := by
  simp only [discardInput, hd, if_pos hu]

theorem discardInput_of_none (hu : ¬0 < c.unreadCount) :
    c.discardInput = { c with filled := 0, get := .empty, onCell := false } := by
  rcases Option.eq_none_or_eq_some c.device with hd | ⟨d, hd⟩
  · simp only [discardInput, hd]
  · simp only [discardInput, hd, if_neg hu]

theorem yieldInput_pushedBack (c : Buffered σ) (b : Bool) :
    yieldInput { c with pushedBack := b } = { c.yieldInput with pushedBack := b } := by
  have hmode : ({ c with pushedBack := b } : Buffered σ).mode = c.mode := rfl
  rw [Buffered.yieldInput, Buffered.yieldInput, hmode]
  by_cases hr : c.mode.isReadable = true
  · rw [if_pos hr, if_pos hr]
    by_cases hu : 0 < c.unreadCount
    · rcases Option.eq_none_or_eq_some c.device with hd | ⟨d, hd⟩
      · simp only [discardInput, hd]
      · rw [discardInput_of_unread hd hu, discardInput_of_unread (by exact hd) (by exact hu)]
        rfl
    · rw [discardInput_of_none hu, discardInput_of_none (by exact hu)]
  · rw [if_neg hr, if_neg hr]

theorem yieldInput_yieldInput (c : Buffered σ) : c.yieldInput.yieldInput = c.yieldInput := by
  obtain ⟨device, error, -, hd⟩ := discardInput_spec c
  by_cases hr : c.mode.isReadable = true
  · have hy : c.yieldInput = _ := (if_pos hr).trans (hd c.put)
    rw [hy, Buffered.yieldInput, if_pos (by exact hr),
      discardInput_of_none (by exact Nat.lt_irrefl 0)]
  · have hy : c.yieldInput = c := if_neg hr
    rw [hy, hy]

/-- The channel with nothing unread. Output, a flush and a seek start from it. -/
def settled (c : Buffered σ) : Buffered σ := if c.unreadCount = 0 then c else c.yieldInput

theorem sync_yieldInput (hc : Coherent c) (hp : ¬0 < c.put.consumed) :
    c.yieldInput.sync = c.sync := by
  rw [sync_eq, sync_eq, hc.yieldInput.2, if_neg hp, if_neg hp, yieldInput_yieldInput]

theorem canWrite_yieldInput (hc : Coherent c) : c.yieldInput.canWrite = c.canWrite := by
  rw [canWrite, hc.yieldInput.1.isOpen, hc.yieldInput.1.mode]
  rfl

theorem overflow_eq (hc : Coherent c) (hw : c.canWrite = true) (b : UInt8) :
    c.overflow b = if c.buffer = [] then
        ((c.yieldInput.writeDirect [b]).1 == 1, (c.yieldInput.writeDirect [b]).2)
      else if c.sync.1 then (true, c.sync.2.openPut.place [b]) else (false, c.sync.2.openPut) := by
  rw [Buffered.overflow, if_neg (by simp [hw]), hc.sync_openPut]
  rfl

theorem overflow_yieldInput (hc : Coherent c) (hw : c.canWrite = true) (hp : ¬0 < c.put.consumed)
    (b : UInt8) : c.yieldInput.overflow b = c.overflow b := by
  rw [overflow_eq hc.yieldInput.1.coherent ((canWrite_yieldInput hc).trans hw), overflow_eq hc hw,
    hc.yieldInput.1.buffer, yieldInput_yieldInput, sync_yieldInput hc hp]

theorem write_yieldInput (hc : Coherent c) (hw : c.canWrite = true) (hp : ¬0 < c.put.consumed)
    (src : Bytes) : c.yieldInput.write src = c.write src := by
  rw [write_eq hw, write_eq ((canWrite_yieldInput hc).trans hw), ← yieldInput_pushedBack,
    hc.yieldInput.1.buffer, sync_yieldInput (hc.pushedBack false) hp, yieldInput_yieldInput]

theorem flush_yieldInput (hc : Coherent c) (ho : c.isOpen = true) (hp : ¬0 < c.put.consumed) :
    c.yieldInput.flush = c.flush := by
  rw [Buffered.flush, Buffered.flush, hc.yieldInput.1.isOpen, sync_yieldInput hc hp, ho]
  rfl

theorem seek_yieldInput (hc : Coherent c) (ho : c.isOpen = true) (hp : ¬0 < c.put.consumed)
    (o : Origin) : c.yieldInput.seek o = c.seek o := by
  rw [Buffered.seek, Buffered.seek, hc.yieldInput.1.isOpen, ← yieldInput_pushedBack,
    sync_yieldInput (hc.pushedBack false) hp, ho]
  rfl

end Buffered

/-- Whether a call gives up unread input, on a channel with output or without. -/
def Call.settles (writable : Bool) : Call → Bool
  | write _ | writeByte _ | overflow _ => writable
  | flush | seek _ | tell => true
  | read _ | readByte | peek | fill _ | unread _ | install _ | resize _ => false

/-- The position that an answer tells. -/
def Answer.position? : Answer → Option Nat
  | position (.ok pos) => some pos
  | _ => none

/-- The file after such a call, which found nothing unread. -/
def File.settledBy (f : File) (mode : OpenMode) (text : Bool) (call : Call) (a : Answer) : File :=
  let sent := f.sent mode text call.source
  { sent with pos := a.position?.getD sent.pos }

/-- The file with the input `u` given back, or as it is where that reaches before its start. -/
def File.givenBack (f : File) (text : Bool) (u : Bytes) : File :=
  if (encoded text u).length ≤ f.pos then f.rewound text u else f

theorem File.length_le_settledBy (f : File) (mode : OpenMode) (text : Bool) (call : Call)
    (a : Answer) : f.bytes.length ≤ (f.settledBy mode text call a).bytes.length :=
  f.length_le_sent call.source

/-- What was written ends inside the file, wherever it starts. -/
theorem File.pos_write_le (f : File) (src : Bytes) {n : Nat} (hpos : f.pos ≤ n)
    (hlen : (f.write src).bytes.length ≤ n) : (f.write src).pos ≤ n := by
  by_cases hsrc : src = []
  · rwa [hsrc, File.write_nil]
  rw [File.write_of_ne_nil f hsrc, length_overwrite] at hlen
  rw [File.pos_write]
  omega

theorem File.pos_sent_le (f : File) {mode : OpenMode} {text : Bool} (src : Bytes) {n : Nat}
    (hpos : f.pos ≤ n) (hlen : (f.sent mode text src).bytes.length ≤ n) :
    (f.sent mode text src).pos ≤ n := by
  have hle := Nat.le_trans (f.length_le_sent src) hlen
  by_cases hsrc : src = []
  · rwa [hsrc, f.sent_nil]
  rw [f.sent_of_ne_nil hsrc] at hlen ⊢
  by_cases ha : mode.append = true
  · rw [if_pos ha] at hlen ⊢
    exact f.atEnd.pos_write_le _ hle hlen
  · rw [if_neg ha] at hlen ⊢
    exact f.pos_write_le _ hpos hlen

namespace Buffered

variable {σ : Type} [Device σ] {c : Buffered σ}

/-- A call that gives up unread input starts as if there was none. -/
theorem Coherent.perform_settled (hc : Coherent c) (ho : c.isOpen = true) (call : Call)
    (hcall : call.settles c.mode.isWritable = true) :
    c.settled.perform call = c.perform call := by
  unfold settled
  by_cases hu : c.unreadCount = 0
  · rw [if_pos hu]
  have hput := hc.isCollapsed_of_unread hu
  have hp : ¬0 < c.put.consumed := by
    rw [Region.consumed_of_isCollapsed hput]
    exact Nat.lt_irrefl 0
  have hwrite (hw : c.mode.isWritable = true) : c.canWrite = true := by
    rw [canWrite, ho, hw]
    rfl
  rw [if_neg hu]
  cases call with
  | write src => rw [Buffered.perform, Buffered.perform, write_yieldInput hc (hwrite hcall) hp]
  | writeByte b =>
    have hfull : ¬0 < c.put.available := by
      intro ha
      have hroom := Region.isCollapsed_of_available ha
      rw [hput] at hroom
      cases hroom
    rw [Buffered.perform, Buffered.perform, Buffered.writeByte, Buffered.writeByte,
      hc.yieldInput.2, if_neg fun ha => hfull ha.1, if_neg fun ha => hfull ha.1,
      overflow_yieldInput hc (hwrite hcall) hp]
  | overflow b => rw [Buffered.perform, Buffered.perform, overflow_yieldInput hc (hwrite hcall) hp]
  | flush => rw [Buffered.perform, Buffered.perform, flush_yieldInput hc ho hp]
  | seek o => rw [Buffered.perform, Buffered.perform, seek_yieldInput hc ho hp]
  | tell =>
    rw [Buffered.perform, Buffered.perform, Buffered.tell, Buffered.tell, seek_yieldInput hc ho hp]
  | _ => cases hcall

/-- Without output such a call may do nothing. -/
theorem perform_of_not_canWrite (hw : c.canWrite = false) (call : Call)
    (houtput : call.settles true = true) (hquiet : call.settles false = false) :
    (c.perform call).2 = c := by
  have hover (b : UInt8) : c.overflow b = (false, c) := by rw [Buffered.overflow, if_pos hw]
  cases call with
  | write src =>
    rw [Buffered.perform, Buffered.write, if_pos hw]
    rfl
  | writeByte b =>
    rw [Buffered.perform, Buffered.writeByte, if_neg (by simp [hw]), hover]
    rfl
  | overflow b =>
    rw [Buffered.perform, hover]
    rfl
  | flush => cases hquiet
  | seek o => cases hquiet
  | tell => cases hquiet
  | _ => cases houtput

/-! ## Standing apart from a failure -/

variable [Reliable σ] {mode : OpenMode} {text : Bool} {u : Bytes} {g : File}

/-- The channel stands so, with a failure latched or without. -/
def Steady (mode : OpenMode) (text : Bool) (c : Buffered σ) (u : Bytes) (g : File) : Prop :=
  Stands mode text { c with error := none } u g

namespace Steady

theorem coherent (h : Steady mode text c u g) : Coherent c :=
  (Stands.coherent h).congr ⟨rfl, rfl, rfl, rfl, rfl, rfl, rfl, rfl, rfl, rfl⟩

theorem isOpen (h : Steady mode text c u g) : c.isOpen = true :=
  Stands.isOpen (c := { c with error := none }) h

theorem mode_eq (h : Steady mode text c u g) : c.mode = mode := by
  obtain ⟨p, f, hc, -⟩ := h
  exact hc.mode_eq

theorem unreadCount (h : Steady mode text c u g) : c.unreadCount = u.length :=
  Stands.unreadCount (c := { c with error := none }) h

theorem of_behind {α : Type} {f : Buffered σ → α × Buffered σ} {a : α} {c' : Buffered σ}
    (hfailing : ∀ e, f (Buffered.failing { c with error := none } e) =
      ((f { c with error := none }).1, (f { c with error := none }).2.failing e))
    (hop : f { c with error := none } = (a, c')) (h : Stands mode text c' u g) :
    ∃ c₁, f c = (a, c₁) ∧ Steady mode text c₁ u g := by
  obtain ⟨c₁, heq, -, hc₁⟩ := behind_failure hfailing hop h.error_eq
  refine ⟨c₁, heq, ?_⟩
  rw [Steady, hc₁]
  exact h

/-- A failure that was latched before does not matter to a flush. -/
theorem flush (h : Steady mode text c [] g) (hlen : mode.append = true → g.bytes.length ≤ top σ) :
    ∃ c', c.flush = (.ok (), c') ∧ c'.error = c.error ∧
      Held mode text { c' with error := none } [] [] g := by
  have hnil : Rewinds σ text [] g := fun hn => absurd rfl hn
  obtain ⟨c₀, hsync, -⟩ := Stands.sync h hnil hlen
  obtain ⟨c', hflush, hc'⟩ := Stands.flush h hnil hlen
  obtain ⟨c₁, heq, herror, hc₁⟩ :=
    behind_failure (flush_failing (by rw [hsync])) hflush hc'.error_eq
  rw [g.rewound_nil] at hc'
  exact ⟨c₁, heq, herror, hc₁ ▸ hc'⟩

theorem seek (h : Steady mode text c [] g) (hlen : mode.append = true → g.bytes.length ≤ top σ)
    (o : Origin) :
    match o.targetWithin? g.pos g.bytes.length (top σ) with
    | some pos => ∃ c', c.seek o = (.ok pos, c') ∧ c'.error = c.error ∧
        Held mode text { c' with error := none } [] [] { g with pos := pos }
    | none => ∃ e c', c.seek o = (.error (.io e), c') ∧ c'.error = c.error ∧
        Held mode text { c' with error := none } [] [] g := by
  have hnil : Rewinds σ text [] g := fun hn => absurd rfl hn
  obtain ⟨c₀, hsync, -⟩ := (Stands.pushedBack h false).sync hnil hlen
  have hmove := Stands.seek h hnil hlen o
  rw [g.rewound_nil] at hmove
  have hfailing (e : IoError) := seek_failing (c := { c with error := none }) (by rw [hsync]) e o
  cases ht : o.targetWithin? g.pos g.bytes.length (top σ) with
  | some pos =>
    rw [ht] at hmove
    obtain ⟨c', hr, hc'⟩ := hmove
    obtain ⟨c₁, heq, herror, hc₁⟩ :=
      behind_failure (f := fun c => c.seek o) hfailing hr hc'.error_eq
    exact ⟨c₁, heq, herror, hc₁ ▸ hc'⟩
  | none =>
    rw [ht] at hmove
    obtain ⟨e, c', hr, hc'⟩ := hmove
    obtain ⟨c₁, heq, herror, hc₁⟩ :=
      behind_failure (f := fun c => c.seek o) hfailing hr hc'.error_eq
    exact ⟨e, c₁, heq, herror, hc₁ ▸ hc'⟩

theorem tell (h : Steady mode text c [] g) (hlen : mode.append = true → g.bytes.length ≤ top σ)
    (hpos : g.pos ≤ top σ) :
    ∃ c', c.tell = (.ok g.pos, c') ∧ c'.error = c.error ∧
      Held mode text { c' with error := none } [] [] g := by
  have hmove := h.seek hlen (.current 0)
  rwa [(Origin.targetWithin?_eq_some_iff _ _ _ _ _).2 ⟨Int.add_zero _, hpos⟩] at hmove

/-- A call that gives up what is unread, where there is nothing. -/
theorem settledBy (h : Steady mode text c [] g) (call : Call)
    (hcall : call.settles mode.isWritable = true) (hpos : g.pos ≤ top σ)
    (hlen : (g.settledBy mode text call (c.perform call).1).bytes.length ≤ top σ) :
    Steady mode text (c.perform call).2 [] (g.settledBy mode text call (c.perform call).1) ∧
      (g.settledBy mode text call (c.perform call).1).pos ≤ top σ := by
  have hnil : Rewinds σ text [] g := fun hn => absurd rfl hn
  have hg (_ : mode.append = true) : g.bytes.length ≤ top σ :=
    Nat.le_trans (g.length_le_settledBy mode text call _) hlen
  have hseek (o : Origin) : Steady mode text (c.seek o).2 []
      { g with pos := (Answer.position (c.seek o).1).position?.getD g.pos } ∧
        (Answer.position (c.seek o).1).position?.getD g.pos ≤ top σ := by
    have hmove := h.seek hg o
    split at hmove
    · next pos ht =>
      obtain ⟨c', hr, -, hc'⟩ := hmove
      rw [hr]
      exact ⟨.of_held hc', ((Origin.targetWithin?_eq_some_iff _ _ _ _ _).1 ht).2⟩
    · obtain ⟨e, c', hr, -, hc'⟩ := hmove
      rw [hr]
      exact ⟨.of_held hc', hpos⟩
  cases call with
  | write src =>
    have hsent (_ : mode.append = true) :
        ((g.rewound text []).sent mode text src).bytes.length ≤ top σ := by
      rw [g.rewound_nil]
      exact hlen
    obtain ⟨c', hr, hc'⟩ := Stands.write h hcall src hnil hsent
    obtain ⟨c₁, heq, hc₁⟩ :=
      of_behind (f := fun c => c.write src) (fun e => write_failing _ e src) hr hc'
    rw [g.rewound_nil] at hc₁
    rw [Buffered.perform, heq]
    exact ⟨hc₁, g.pos_sent_le src hpos hlen⟩
  | writeByte b =>
    obtain ⟨c', hr, hc'⟩ := Stands.writeByte h hcall b hnil hg
    obtain ⟨c₁, heq, hc₁⟩ :=
      of_behind (f := fun c => c.writeByte b) (fun e => writeByte_failing _ e b) hr hc'
    rw [g.rewound_nil] at hc₁
    rw [Buffered.perform, heq]
    exact ⟨hc₁, g.pos_sent_le [b] hpos hlen⟩
  | overflow b =>
    obtain ⟨c', hr, hc'⟩ := Stands.overflow h hcall b hnil hg
    obtain ⟨c₁, heq, hc₁⟩ :=
      of_behind (f := fun c => c.overflow b) (fun e => overflow_failing _ e b) hr hc'
    rw [g.rewound_nil] at hc₁
    rw [Buffered.perform, heq]
    exact ⟨hc₁, g.pos_sent_le [b] hpos hlen⟩
  | flush =>
    obtain ⟨c₁, heq, -, hc₁⟩ := h.flush hg
    rw [Buffered.perform, heq]
    exact ⟨.of_held hc₁, hpos⟩
  | seek o => exact hseek o
  | tell => exact hseek (.current 0)
  | _ => cases hcall

/-- A change of buffer keeps what is unread: it is refused where there is any. -/
theorem installBuffer (h : Steady mode text c u g)
    (hlen : mode.append = true → g.bytes.length ≤ top σ) (buffer : Bytes) :
    Steady mode text (c.installBuffer buffer).2 u g := by
  by_cases hu : u = []
  · subst hu
    obtain ⟨c₀, hsync, -⟩ := Stands.sync h (fun hn => absurd rfl hn) hlen
    obtain ⟨c', hr, hc'⟩ := Stands.installBuffer h buffer hlen
    obtain ⟨c₁, heq, hc₁⟩ := of_behind (f := fun c => c.installBuffer buffer)
      (fun e => installBuffer_failing (by rw [hsync]) e buffer) hr (.of_held hc')
    rwa [heq]
  · have hz : c.unreadCount ≠ 0 := by
      rw [h.unreadCount]
      exact fun hz => hu (List.length_eq_zero_iff.1 hz)
    rwa [Buffered.installBuffer, if_pos hz]

/-- Input that the device can go back over is given back. -/
theorem yieldInput (h : Steady mode text c u g) (hback : Rewinds σ text u g) :
    Steady mode text c.yieldInput [] (g.rewound text u) := by
  obtain ⟨c₁, heq, hc₁⟩ := of_behind (f := fun c => ((), c.yieldInput))
    (fun e => congrArg (Prod.mk ()) (yieldInput_failing _ e)) rfl (Stands.yieldInput h hback)
  cases heq
  exact hc₁

/-- Input that reaches before the start of the device is dropped, and a failure tells of it. -/
theorem yieldInput_refused (h : Steady mode text c u g) (hu : u ≠ [])
    (hback : g.pos < (encoded text u).length) :
    Steady mode text c.yieldInput [] g ∧ c.yieldInput.isFailed = true := by
  have hheld := Stands.held_of_ne_nil h hu
  obtain ⟨d, hd, hs⟩ := hheld.shows
  have hr : c.mode.isReadable = true := by
    by_cases hr : c.mode.isReadable = true
    · exact hr
    · exact absurd (Stands.eq_nil_of_not_isReadable h (by simpa [h.mode_eq] using hr)) hu
  have hz : 0 < c.unreadCount := by
    rw [h.unreadCount]
    exact List.length_pos_iff.2 hu
  have hspan : c.unreadSpan = (encoded text u).length := by
    rw [unreadSpan_eq h.coherent, show c.text = text from hheld.text_eq,
      show c.stock = u from hheld.stock_eq]
  have hnone : (Origin.current (-(encoded text u).length)).targetWithin? g.pos g.bytes.length
      (top σ) = none := by
    rw [Option.eq_none_iff_forall_ne_some]
    intro pos hpos
    rw [Origin.targetWithin?_eq_some_iff, Origin.target] at hpos
    omega
  have hseek := seek_shows hs (.current (-(encoded text u).length))
  rw [hnone] at hseek
  obtain ⟨e, d', hmove, hd'⟩ := hseek
  have hy : c.yieldInput = _ := (if_pos hr).trans (discardInput_of_unread (d := d) hd hz)
  rw [hspan, hmove] at hy
  have hc := h.coherent.yieldInput.1.coherent
  rw [hy] at hc ⊢
  refine ⟨.of_held ⟨⟨hheld.mode_eq, hheld.text_eq, hheld.expander, rfl, d', rfl, hd'⟩,
    hc.clearError, rfl, hheld.pending_eq⟩, ?_⟩
  cases c.error <;> simp [isFailed, latch, failure?]

/-- What is unread is given back, or dropped with a failure. -/
theorem settled (h : Steady mode text c u g) (htop : g.pos ≤ top σ) :
    Steady mode text c.settled [] (g.givenBack text u) ∧
      (g.pos < (encoded text u).length → c.settled.isFailed = true) := by
  unfold Buffered.settled File.givenBack
  by_cases hu : u = []
  · subst hu
    have hz : c.unreadCount = 0 := h.unreadCount
    rw [if_pos hz, g.rewound_nil, ite_self, encoded_nil]
    exact ⟨h, fun hlt => absurd hlt (Nat.not_lt_zero _)⟩
  have hz : ¬c.unreadCount = 0 := by
    rw [h.unreadCount]
    exact fun hz => hu (List.length_eq_zero_iff.1 hz)
  rw [if_neg hz]
  by_cases hback : (encoded text u).length ≤ g.pos
  · rw [if_pos hback]
    exact ⟨h.yieldInput fun _ => ⟨hback, htop⟩, fun hlt => absurd hback (Nat.not_le_of_lt hlt)⟩
  · rw [if_neg hback]
    obtain ⟨hs, hfailed⟩ := h.yieldInput_refused hu (Nat.lt_of_not_le hback)
    exact ⟨hs, fun _ => hfailed⟩

end Steady

end Buffered

end ByteChannel
