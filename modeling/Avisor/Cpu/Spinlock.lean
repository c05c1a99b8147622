import Avisor.Lib.FairLock
import Avisor.Lib.Refinement
import Avisor.Mem.RootPool
import Avisor.Sched.State
import Mathlib.Data.Finset.Card

/-!
# The ticket lock

`spin_lock` and `spin_unlock` of `lib/inc/spinlock.h`, one instruction that touches memory, the
exclusive monitor or the event register after another; what works on the core's registers alone goes
with the instruction before it. The accesses take effect in one order for all pCPUs, which is what their
acquire and release forms are for.
-/

namespace Avisor

open Function

/-- Where a pCPU is: in no call, before an instruction of `spin_lock` (with `%w0`, its ticket), in the
code that the lock protects, or before an instruction of `spin_unlock` (with `%w0`, the next ticket). -/
inductive SpinPc
  | outside
  | ldaxr
  | stxr (ticket : BitVec 32)
  | ldar (ticket : BitVec 32)
  | wfe (ticket : BitVec 32)
  | inside
  | ldr
  | stlr (next : BitVec 32)
  | sev
  deriving DecidableEq

/-- A lock with the pCPUs' exclusive monitors and event registers. Nothing keeps `drawn`, the tickets'
owners so far, `entered`, the returns from `spin_lock` so far, and `left`, the number of tickets that
were passed on. -/
structure SpinState where
  lock : Spinlock
  pc : PCpuId → SpinPc
  monitor : PCpuId → Bool
  event : PCpuId → Bool
  drawn : List PCpuId
  entered : List PCpuId
  left : ℕ

/-- A call, the next instruction of a pCPU (`fails` for a store-exclusive that does not come through
although it could), or what reaches its monitor and its event register from elsewhere. -/
inductive SpinAction
  | lock (c : PCpuId)
  | unlock (c : PCpuId)
  | exec (c : PCpuId) (fails : Bool)
  | clear (c : PCpuId)
  | event (c : PCpuId)
  deriving DecidableEq

/-- The pCPU `c` goes on at `pc`. -/
def SpinState.goto (s : SpinState) (c : PCpuId) (pc : SpinPc) : SpinState :=
  { s with pc := update s.pc c pc }

/-- `ldaxr`. -/
def spinLdaxr (s : SpinState) (c : PCpuId) : SpinState :=
  { s.goto c (.stxr s.lock.ticket) with monitor := update s.monitor c true }

/-- `stxr` with the test of `%w2`: a store clears the monitors of all. -/
def spinStxr (s : SpinState) (c : PCpuId) (ticket : BitVec 32) (fails : Bool) : SpinState :=
  if s.monitor c ∧ ¬fails then
    { s.goto c (.ldar ticket) with
      lock := { s.lock with ticket := ticket + 1 }
      monitor := fun _ => false
      drawn := s.drawn ++ [c] }
  else { s.goto c .ldaxr with monitor := update s.monitor c false }

/-- `ldar` with the comparison. -/
def spinLdar (s : SpinState) (c : PCpuId) (ticket : BitVec 32) : SpinState :=
  if ticket = s.lock.next then { s.goto c .inside with entered := s.entered ++ [c] }
  else s.goto c (.wfe ticket)

/-- `wfe`: the pCPU sleeps until there is an event. -/
def spinWfe (s : SpinState) (c : PCpuId) (ticket : BitVec 32) : Option SpinState :=
  if s.event c then some { s.goto c (.ldar ticket) with event := update s.event c false } else none

/-- `stlr`. -/
def spinStlr (s : SpinState) (c : PCpuId) (next : BitVec 32) : SpinState :=
  { s.goto c .sev with lock := { s.lock with next := next }, left := s.left + 1 }

/-- `sev`, an event for all. -/
def spinSev (s : SpinState) (c : PCpuId) : SpinState :=
  { s.goto c .outside with event := fun _ => true }

/-- The next instruction. -/
def spinExec (s : SpinState) (c : PCpuId) (fails : Bool) : Option SpinState :=
  match s.pc c with
  | .outside => none
  | .ldaxr => some (spinLdaxr s c)
  | .stxr ticket => some (spinStxr s c ticket fails)
  | .ldar ticket => some (spinLdar s c ticket)
  | .wfe ticket => spinWfe s c ticket
  | .inside => none
  | .ldr => some (s.goto c (.stlr (s.lock.next + 1)))
  | .stlr next => some (spinStlr s c next)
  | .sev => some (spinSev s c)

/-- A step of one of the `n` pCPUs. -/
def spinStep (n : ℕ) (s : SpinState) : SpinAction → Option SpinState
  | .lock c => if c < n ∧ s.pc c = .outside then some (s.goto c .ldaxr) else none
  | .unlock c => if c < n ∧ s.pc c = .inside then some (s.goto c .ldr) else none
  | .exec c fails => if c < n then spinExec s c fails else none
  | .clear c => some { s with monitor := update s.monitor c false }
  | .event c => some { s with event := update s.event c true }

/-- `spinlock_init` or `SPINLOCK_INITVAL`, before the first call. -/
structure SpinStart (s : SpinState) : Prop where
  lock : s.lock = spinlockInitval
  pc : ∀ c, s.pc c = .outside
  drawn : s.drawn = []
  entered : s.entered = []
  left : s.left = 0

/-- The machine of `n` pCPUs. -/
def spinMachine (n : ℕ) : Machine SpinState SpinAction where
  Init := SpinStart
  step := spinStep n

/-- The lock as its clients see it. -/
def SpinState.line (s : SpinState) : FairLock PCpuId := ⟨s.drawn, s.entered, s.left⟩

/-- In the code that the lock protects, up to the store that passes it on. -/
def SpinPc.Holds : SpinPc → Prop
  | .inside | .ldr | .stlr _ => True
  | _ => False

/-- Waiting with a ticket. -/
def SpinPc.Waits (ticket : BitVec 32) : SpinPc → Prop
  | .ldar ticket' | .wfe ticket' => ticket' = ticket
  | _ => False

/-- What the place of a pCPU in the code says about its place in the line. -/
def SpinAt (s : SpinState) (c : PCpuId) : SpinPc → Prop
  | .outside | .ldaxr | .sev => c ∉ s.line.line
  | .stxr ticket => c ∉ s.line.line ∧ (s.monitor c → ticket = s.lock.ticket)
  | .ldar ticket => c ∉ s.line.holders ∧ ∃ k, s.line.line[k]? = some c ∧ ticket = .ofNat 32 (s.left + k)
  | .wfe ticket =>
    (c ∉ s.line.holders ∧ ∃ k, s.line.line[k]? = some c ∧ ticket = .ofNat 32 (s.left + k)) ∧
      (ticket = s.lock.next → s.event c ∨ ∃ d, s.pc d = .sev)
  | .inside | .ldr => s.line.holders = [c]
  | .stlr next => s.line.holders = [c] ∧ next = s.lock.next + 1

/-- The words of the lock count the draws and the tickets passed on, and every pCPU is where its place
in the line lets it be. -/
structure SpinWf (n : ℕ) (s : SpinState) : Prop where
  fair : s.line.Wf
  ticket : s.lock.ticket = .ofNat 32 s.drawn.length
  next : s.lock.next = .ofNat 32 s.left
  lt : ∀ c, s.pc c ≠ .outside → c < n
  at_pc : ∀ c, SpinAt s c (s.pc c)

variable {n : ℕ} {s t : SpinState} {c d : PCpuId} {pc : SpinPc} {ticket next : BitVec 32}

/-! ### The line -/

theorem SpinWf.init (h : SpinStart s) : SpinWf n s := by
  have hline : s.line = ⟨[], [], 0⟩ := by
    rw [SpinState.line, h.drawn, h.entered, h.left]
  refine ⟨?_, ?_, ?_, fun c hc => absurd (h.pc c) hc, fun c => ?_⟩
  · rw [hline]
    exact FairLock.Wf.init rfl
  · rw [h.lock, h.drawn]
    rfl
  · rw [h.lock, h.left]
    rfl
  · rw [h.pc, SpinAt, hline]
    exact List.not_mem_nil

/-- Who is in the line is in a call. -/
theorem SpinWf.lt_of_mem (h : SpinWf n s) (hc : c ∈ s.line.line) : c < n := by
  apply h.lt
  intro hpc
  have hat := h.at_pc c
  rw [hpc] at hat
  exact hat hc

theorem SpinWf.length_le (h : SpinWf n s) : s.line.line.length ≤ n := by
  rw [← List.length_range (n := n)]
  apply List.Subperm.length_le
  apply List.Nodup.subperm h.fair.nodup
  intro c hc
  exact List.mem_range.mpr (h.lt_of_mem hc)

/-- A ticket is the next one exactly at the head of the line. -/
theorem SpinWf.ticket_eq_next (hn : n ≤ 2 ^ 32) (h : SpinWf n s) {k : ℕ}
    (hk : s.line.line[k]? = some c) : BitVec.ofNat 32 (s.left + k) = s.lock.next ↔ k = 0 := by
  have hlt : k < n := Nat.lt_of_lt_of_le (List.getElem?_eq_some_iff.mp hk).1 h.length_le
  rw [h.next]
  constructor
  · intro heq
    have hmod := congrArg BitVec.toNat heq
    rw [BitVec.toNat_ofNat, BitVec.toNat_ofNat] at hmod
    omega
  · rintro rfl
    rfl

theorem SpinWf.holders_eq (h : SpinWf n s) (hc : (s.pc c).Holds) : s.line.holders = [c] := by
  have hat := h.at_pc c
  cases hpc : s.pc c with
  | inside => rwa [hpc] at hat
  | ldr => rwa [hpc] at hat
  | stlr next =>
    rw [hpc] at hat
    exact hat.1
  | outside => simp [hpc, SpinPc.Holds] at hc
  | ldaxr => simp [hpc, SpinPc.Holds] at hc
  | stxr ticket => simp [hpc, SpinPc.Holds] at hc
  | ldar ticket => simp [hpc, SpinPc.Holds] at hc
  | wfe ticket => simp [hpc, SpinPc.Holds] at hc
  | sev => simp [hpc, SpinPc.Holds] at hc

/-! ### The pCPUs beside the one that steps -/

@[simp] theorem SpinState.goto_pc_self (s : SpinState) (c : PCpuId) (pc : SpinPc) :
    (s.goto c pc).pc c = pc :=
  update_self ..

theorem SpinState.goto_pc_of_ne (s : SpinState) (hdc : d ≠ c) (pc : SpinPc) :
    (s.goto c pc).pc d = s.pc d :=
  update_of_ne hdc ..

/-- What the step of another pCPU leaves to `d`: its ticket is the one of its place, its monitor is set
for the ticket word as it is, and a change of the next ticket is followed by an event. -/
structure SpinBeside (s t : SpinState) (d : PCpuId) : Prop where
  pc : t.pc d = s.pc d
  outside : d ∉ s.line.line → d ∉ t.line.line
  waits : d ∉ s.line.holders → ∀ {k}, s.line.line[k]? = some d →
    d ∉ t.line.holders ∧ ∃ k', t.line.line[k']? = some d ∧ s.left + k = t.left + k'
  holds : s.line.holders = [d] → t.line.holders = [d] ∧ t.lock.next = s.lock.next
  monitor : t.monitor d → s.monitor d ∧ t.lock.ticket = s.lock.ticket
  wakes : (∃ e, t.pc e = .sev) ∨ t.event d ∨
    t.lock.next = s.lock.next ∧ (s.event d → t.event d) ∧ ∀ e, s.pc e = .sev → t.pc e = .sev

theorem SpinAt.beside (hside : SpinBeside s t d) (h : SpinAt s d pc) : SpinAt t d pc := by
  cases pc with
  | outside => exact hside.outside h
  | ldaxr => exact hside.outside h
  | sev => exact hside.outside h
  | stxr ticket =>
    refine ⟨hside.outside h.1, fun hmon => ?_⟩
    obtain ⟨hmon', hticket⟩ := hside.monitor hmon
    rw [hticket]
    exact h.2 hmon'
  | ldar ticket =>
    obtain ⟨hout, k, hk, hticket⟩ := h
    obtain ⟨hout', k', hk', heq⟩ := hside.waits hout hk
    exact ⟨hout', k', hk', heq ▸ hticket⟩
  | wfe ticket =>
    obtain ⟨⟨hout, k, hk, hticket⟩, hwake⟩ := h
    obtain ⟨hout', k', hk', heq⟩ := hside.waits hout hk
    refine ⟨⟨hout', k', hk', heq ▸ hticket⟩, fun hnext => ?_⟩
    rcases hside.wakes with hsev | hev | ⟨hsame, hevent, hsev⟩
    · exact .inr hsev
    · exact .inl hev
    · rcases hwake (hnext.trans hsame) with hev | ⟨e, he⟩
      · exact .inl (hevent hev)
      · exact .inr ⟨e, hsev e he⟩
  | inside => exact (hside.holds h).1
  | ldr => exact (hside.holds h).1
  | stlr next =>
    obtain ⟨hholds, hsame⟩ := hside.holds h.1
    exact ⟨hholds, hsame ▸ h.2⟩

/-- A step of `c` keeps the invariant where it leaves the others what they have. -/
theorem SpinWf.of_beside (h : SpinWf n s) (hc : c < n) (hfair : t.line.Wf)
    (hticket : t.lock.ticket = .ofNat 32 t.drawn.length) (hnext : t.lock.next = .ofNat 32 t.left)
    (hat : SpinAt t c (t.pc c)) (hside : ∀ d, d ≠ c → SpinBeside s t d) : SpinWf n t := by
  refine ⟨hfair, hticket, hnext, fun d hd => ?_, fun d => ?_⟩
  · by_cases hdc : d = c
    · rwa [hdc]
    · exact h.lt d ((hside d hdc).pc ▸ hd)
  · by_cases hdc : d = c
    · rwa [hdc]
    · rw [(hside d hdc).pc]
      exact (h.at_pc d).beside (hside d hdc)

/-- A step that leaves the line as it is, and its pCPU out of `sev` unless it makes an event for all,
does nothing to the others. -/
theorem SpinBeside.of_line (hlock : t.lock = s.lock) (hline : t.line = s.line) (hpc : t.pc d = s.pc d)
    (hmonitor : t.monitor d → s.monitor d)
    (hwakes : t.event d ∨ (s.event d → t.event d) ∧ ∀ e, s.pc e = .sev → t.pc e = .sev) :
    SpinBeside s t d := by
  have hleft : t.left = s.left := congrArg FairLock.left hline
  refine ⟨hpc, fun hout => ?_, fun hout k hk => ?_, fun hholds => ?_, fun hmon => ?_, ?_⟩
  · rwa [hline]
  · rw [hline, hleft]
    exact ⟨hout, k, hk, rfl⟩
  · rw [hline, hlock]
    exact ⟨hholds, rfl⟩
  · rw [hlock]
    exact ⟨hmonitor hmon, rfl⟩
  · rw [hlock]
    exact .inr (hwakes.imp id fun hwakes => ⟨rfl, hwakes⟩)

theorem SpinWf.of_line (h : SpinWf n s) (hc : c < n) (hlock : t.lock = s.lock) (hline : t.line = s.line)
    (hat : SpinAt t c (t.pc c)) (hside : ∀ d, d ≠ c → SpinBeside s t d) : SpinWf n t := by
  apply h.of_beside hc (hline ▸ h.fair)
  · rw [hlock, h.ticket]
    exact congrArg (fun l => BitVec.ofNat 32 l.drawn.length) hline.symm
  · rw [hlock, h.next]
    exact congrArg (fun l => BitVec.ofNat 32 l.left) hline.symm
  · exact hat
  · exact hside

/-- The pCPU goes on at another place, and perhaps its own monitor or event register changes. -/
theorem SpinWf.goto (h : SpinWf n s) (hc : c < n) (hsev : s.pc c ≠ .sev) {monitor event : PCpuId → Bool}
    (hmonitor : ∀ d, d ≠ c → monitor d = s.monitor d) (hevent : ∀ d, d ≠ c → event d = s.event d)
    (hat : SpinAt { s.goto c pc with monitor := monitor, event := event } c pc) :
    SpinWf n { s.goto c pc with monitor := monitor, event := event } := by
  refine h.of_line (t := { s.goto c pc with monitor := monitor, event := event }) hc rfl rfl ?_ fun d hdc => ?_
  · simp only [SpinState.goto_pc_self]
    exact hat
  · refine .of_line rfl rfl (s.goto_pc_of_ne hdc _) (fun hmon => ?_) (.inr ⟨fun hev => ?_, fun e he => ?_⟩)
    · exact hmonitor d hdc ▸ hmon
    · exact (hevent d hdc).trans hev
    · refine (s.goto_pc_of_ne ?_ _).trans he
      rintro rfl
      exact hsev he

/-! ### Steps of the line -/

/-- A store-exclusive that comes through puts the pCPU at the end of the line. -/
theorem SpinWf.draw (h : SpinWf n s) (hc : c < n) (hpc : s.pc c = .stxr ticket)
    (hmon : s.monitor c = true) :
    SpinWf n (spinStxr s c ticket false) ∧
      s.line.step (.draw c) = some (spinStxr s c ticket false).line := by
  have hat := h.at_pc c
  rw [hpc] at hat
  obtain ⟨hmem, hticket⟩ := hat
  replace hticket := hticket hmon
  have heq : spinStxr s c ticket false = { s.goto c (.ldar ticket) with
      lock := { s.lock with ticket := ticket + 1 }
      monitor := fun _ => false
      drawn := s.drawn ++ [c] } := if_pos ⟨hmon, by simp⟩
  have hstep : s.line.step (.draw c) = some (spinStxr s c ticket false).line := by
    rw [heq]
    exact if_neg hmem
  refine ⟨?_, hstep⟩
  have hfair := h.fair.step hstep
  rw [heq] at hfair ⊢
  have hline := h.fair.line_draw (c := c)
  have hlength : s.line.line.length = s.drawn.length - s.left := List.length_drop
  have hle : s.left ≤ s.drawn.length := h.fair.left_le_drawn
  apply h.of_beside hc hfair
  · rw [hticket, h.ticket, List.length_append, List.length_singleton]
    exact BitVec.ofNat_add .. |>.symm
  · exact h.next
  · simp only [SpinState.goto_pc_self]
    refine ⟨fun hin => hmem (h.fair.mem_line hin), s.drawn.length - s.left, ?_, ?_⟩
    · exact (congrArg (fun l => l[s.drawn.length - s.left]?) hline).trans
        (by rw [← hlength, List.getElem?_concat_length])
    · rw [hticket, h.ticket]
      exact congrArg _ (Nat.add_sub_cancel' hle).symm
  · intro d hdc
    refine ⟨s.goto_pc_of_ne hdc _, fun hout hin => ?_, fun hout k hk => ⟨hout, k, ?_, rfl⟩,
      fun hholds => ⟨hholds, rfl⟩, fun hfalse => (Bool.false_ne_true hfalse).elim,
      .inr (.inr ⟨rfl, id, fun e he => ?_⟩)⟩
    · rcases List.mem_append.mp (hline ▸ hin) with hbefore | hlast
      · exact hout hbefore
      · exact hdc (List.mem_singleton.mp hlast)
    · have hlt := (List.getElem?_eq_some_iff.mp hk).1
      exact (congrArg (fun l => l[k]?) hline).trans ((List.getElem?_append_left hlt).trans hk)
    · rw [← he]
      apply s.goto_pc_of_ne
      rintro rfl
      rw [hpc] at he
      cases he

/-- A pCPU enters with the ticket that is the next one: it is the first in the line and nobody holds
the lock. -/
theorem SpinWf.enter (hn : n ≤ 2 ^ 32) (h : SpinWf n s) (hc : c < n) (hpc : s.pc c = .ldar s.lock.next) :
    SpinWf n (spinLdar s c s.lock.next) ∧
      s.line.step (.enter c) = some (spinLdar s c s.lock.next).line := by
  have hat := h.at_pc c
  rw [hpc] at hat
  obtain ⟨hout, k, hk, hticket⟩ := hat
  have hfirst : s.line.line.head? = some c := by
    obtain rfl := (h.ticket_eq_next hn hk).mp hticket.symm
    rwa [List.head?_eq_getElem?]
  have hfree : s.line.holders = [] := by
    by_contra hne
    obtain ⟨d, hd⟩ := List.exists_mem_of_ne_nil _ hne
    have hdfirst := h.fair.head?_line (h.fair.holders_eq hd)
    rw [hfirst] at hdfirst
    cases hdfirst
    exact hout hd
  have heq : spinLdar s c s.lock.next = { s.goto c .inside with entered := s.entered ++ [c] } :=
    if_pos rfl
  have hstep : s.line.step (.enter c) = some (spinLdar s c s.lock.next).line := by
    rw [heq]
    exact if_pos ⟨hfree, hfirst⟩
  refine ⟨?_, hstep⟩
  have hfair := h.fair.step hstep
  rw [heq] at hfair ⊢
  have hholders := h.fair.holders_enter (c := c) hfree
  apply h.of_beside hc hfair h.ticket h.next
  · simp only [SpinState.goto_pc_self]
    exact hholders
  · intro d hdc
    refine ⟨s.goto_pc_of_ne hdc _, id, fun _ k hk => ⟨fun hin => ?_, k, hk, rfl⟩, fun hholds => ?_,
      fun hmon => ⟨hmon, rfl⟩, .inr (.inr ⟨rfl, id, fun e he => ?_⟩)⟩
    · exact hdc (List.mem_singleton.mp (hholders ▸ hin))
    · rw [hfree] at hholds
      cases hholds
    · rw [← he]
      apply s.goto_pc_of_ne
      rintro rfl
      rw [hpc] at he
      cases he

/-- The store of `spin_unlock` takes the holder out of the line, and everybody moves on. -/
theorem SpinWf.leave (h : SpinWf n s) (hc : c < n) (hpc : s.pc c = .stlr next) :
    SpinWf n (spinStlr s c next) ∧ s.line.step (.leave c) = some (spinStlr s c next).line := by
  have hat := h.at_pc c
  rw [hpc] at hat
  obtain ⟨hholds, hnext⟩ := hat
  have hstep : s.line.step (.leave c) = some (spinStlr s c next).line := if_pos hholds
  refine ⟨?_, hstep⟩
  have hfair := h.fair.step hstep
  have hfirst := h.fair.head?_line hholds
  have hline : (spinStlr s c next).line.line = s.line.line.tail := FairLock.line_leave s.line
  have hholders : (spinStlr s c next).line.holders = [] := h.fair.holders_leave
  obtain ⟨rest, hrest⟩ := List.head?_eq_some_iff.mp hfirst
  apply h.of_beside hc hfair h.ticket
  · show next = .ofNat 32 (s.left + 1)
    rw [hnext, h.next]
    exact BitVec.ofNat_add .. |>.symm
  · rw [spinStlr, SpinState.goto_pc_self]
    show c ∉ (spinStlr s c next).line.line
    rw [hline, hrest]
    have hnodup := h.fair.nodup
    rw [hrest] at hnodup
    exact (List.nodup_cons.mp hnodup).1
  · intro d hdc
    refine ⟨s.goto_pc_of_ne hdc _, fun hout hin => ?_, fun hout k hk => ?_, fun hother => ?_,
      fun hmon => ⟨hmon, rfl⟩, .inl ⟨c, s.goto_pc_self c .sev⟩⟩
    · rw [hline] at hin
      exact hout (List.mem_of_mem_tail hin)
    · cases k with
      | zero =>
        rw [← List.head?_eq_getElem?, hfirst] at hk
        cases hk
        exact absurd rfl hdc
      | succ k =>
        rw [hrest, List.getElem?_cons_succ] at hk
        rw [hholders, hline, hrest]
        exact ⟨List.not_mem_nil, k, hk, (Nat.succ_add_eq_add_succ s.left k).symm⟩
    · rw [hholds] at hother
      cases hother
      exact absurd rfl hdc

/-! ### Runs -/

/-- What an action comes to for the line: a store-exclusive that comes through, a ticket that is the
next one, or the store that passes the lock on. -/
def spinLabel (s : SpinState) : SpinAction → Option (FairLock.Action PCpuId)
  | .exec c fails =>
    match s.pc c with
    | .stxr _ => if s.monitor c ∧ ¬fails then some (.draw c) else none
    | .ldar ticket => if ticket = s.lock.next then some (.enter c) else none
    | .stlr _ => some (.leave c)
    | _ => none
  | _ => none

/-- A step keeps the invariant, and the line takes the step of its label. -/
theorem SpinWf.step (hn : n ≤ 2 ^ 32) (h : SpinWf n s) {a : SpinAction}
    (hstep : (spinMachine n).step s a = some t) :
    SpinWf n t ∧
      match spinLabel s a with
      | none => t.line = s.line
      | some b => s.line.step b = some t.line := by
  cases a with
  | lock c =>
    obtain ⟨⟨hc, hpc⟩, ht⟩ := Option.ite_none_right_eq_some.mp hstep
    cases ht
    have hat := h.at_pc c
    rw [hpc] at hat
    exact ⟨h.goto hc (by simp [hpc]) (fun _ _ => rfl) (fun _ _ => rfl) hat, rfl⟩
  | unlock c =>
    obtain ⟨⟨hc, hpc⟩, ht⟩ := Option.ite_none_right_eq_some.mp hstep
    cases ht
    have hat := h.at_pc c
    rw [hpc] at hat
    exact ⟨h.goto hc (by simp [hpc]) (fun _ _ => rfl) (fun _ _ => rfl) hat, rfl⟩
  | clear c =>
    cases hstep
    refine ⟨⟨h.fair, h.ticket, h.next, h.lt, fun d => (h.at_pc d).beside ?_⟩, rfl⟩
    refine .of_line rfl rfl rfl (fun hmon => ?_) (.inr ⟨id, fun _ => id⟩)
    by_cases hdc : d = c
    · simp [hdc] at hmon
    · simpa only [update_of_ne hdc] using hmon
  | event c =>
    cases hstep
    refine ⟨⟨h.fair, h.ticket, h.next, h.lt, fun d => (h.at_pc d).beside ?_⟩, rfl⟩
    refine .of_line rfl rfl rfl id (.inr ⟨fun hev => ?_, fun _ => id⟩)
    by_cases hdc : d = c
    · simp [hdc]
    · simpa only [update_of_ne hdc] using hev
  | exec c fails =>
    obtain ⟨hc, hstep⟩ := Option.ite_none_right_eq_some.mp hstep
    have hat := h.at_pc c
    cases hpc : s.pc c with
    | outside => simp [spinExec, hpc] at hstep
    | inside => simp [spinExec, hpc] at hstep
    | ldaxr =>
      simp only [spinExec, spinLabel, hpc] at hstep ⊢
      rw [hpc] at hat
      cases hstep
      refine ⟨h.goto hc (by simp [hpc]) (fun d hdc => ?_) (fun _ _ => rfl) ⟨hat, fun _ => rfl⟩, rfl⟩
      exact update_of_ne hdc ..
    | stxr ticket =>
      simp only [spinExec, spinLabel, hpc] at hstep ⊢
      rw [hpc] at hat
      cases hstep
      by_cases hcome : s.monitor c ∧ ¬fails
      · obtain rfl : fails = false := by simpa using hcome.2
        rw [if_pos hcome]
        exact h.draw hc hpc hcome.1
      · rw [if_neg hcome, spinStxr, if_neg hcome]
        refine ⟨h.goto hc (by simp [hpc]) (fun d hdc => ?_) (fun _ _ => rfl) hat.1, rfl⟩
        exact update_of_ne hdc ..
    | ldar ticket =>
      simp only [spinExec, spinLabel, hpc] at hstep ⊢
      rw [hpc] at hat
      cases hstep
      by_cases hnext : ticket = s.lock.next
      · subst hnext
        rw [if_pos rfl]
        exact h.enter hn hc hpc
      · rw [if_neg hnext, spinLdar, if_neg hnext]
        refine ⟨h.goto hc (by simp [hpc]) (fun _ _ => rfl) (fun _ _ => rfl) ?_, rfl⟩
        exact ⟨hat, fun heq => absurd heq hnext⟩
    | wfe ticket =>
      simp only [spinExec, spinLabel, hpc, spinWfe] at hstep ⊢
      rw [hpc] at hat
      obtain ⟨-, ht⟩ := Option.ite_none_right_eq_some.mp hstep
      cases ht
      refine ⟨h.goto hc (by simp [hpc]) (fun _ _ => rfl) (fun d hdc => ?_) hat.1, rfl⟩
      exact update_of_ne hdc ..
    | ldr =>
      simp only [spinExec, spinLabel, hpc] at hstep ⊢
      rw [hpc] at hat
      cases hstep
      exact ⟨h.goto hc (by simp [hpc]) (fun _ _ => rfl) (fun _ _ => rfl) ⟨hat, rfl⟩, rfl⟩
    | stlr next =>
      simp only [spinExec, spinLabel, hpc] at hstep ⊢
      cases hstep
      exact h.leave hc hpc
    | sev =>
      simp only [spinExec, spinLabel, hpc] at hstep ⊢
      rw [hpc] at hat
      cases hstep
      refine ⟨h.of_line hc rfl rfl ?_ fun d hdc => ?_, rfl⟩
      · rw [spinSev, SpinState.goto_pc_self]
        exact hat
      · exact .of_line rfl rfl (s.goto_pc_of_ne hdc _) id (.inl rfl)

/-- A ticket lock is a fair lock, as long as there are no more pCPUs than tickets. -/
theorem spinMachine_refines (hn : n ≤ 2 ^ 32) :
    (spinMachine n).Refines (FairLock.machine PCpuId) (SpinWf n) SpinState.line spinLabel where
  invariant_init := SpinWf.init
  invariant_step h hstep := (h.step hn hstep).1
  init h := by
    show SpinState.line _ = _
    rw [SpinState.line, h.drawn, h.entered, h.left]
  silent h hstep hlabel := by
    have hline := (h.step hn hstep).2
    rwa [hlabel] at hline
  step h hstep hlabel := by
    have hline := (h.step hn hstep).2
    rwa [hlabel] at hline

/-- The abstract line of a reachable state. -/
theorem SpinState.line_wf (hn : n ≤ 2 ^ 32) (h : (spinMachine n).Reachable s) : s.line.Wf :=
  FairLock.reachable_wf ((spinMachine_refines hn).reachable h)

/-- One pCPU at most is in the code that the lock protects. -/
theorem SpinState.eq_of_holds (hn : n ≤ 2 ^ 32) (h : (spinMachine n).Reachable s) (hc : (s.pc c).Holds)
    (hd : (s.pc d).Holds) : c = d := by
  have hwf := (spinMachine_refines hn).invariant h
  apply (SpinState.line_wf hn h).eq_of_mem_holders
  · rw [hwf.holders_eq hc]
    exact List.mem_singleton_self c
  · rw [hwf.holders_eq hd]
    exact List.mem_singleton_self d

/-- In every order of steps, one pCPU at most is in the code that the lock protects, and the pCPUs
get there in the order of their tickets. -/
theorem spin_lock_mutual_exclusion (hn : n ≤ 2 ^ 32) (h : (spinMachine n).Reachable s) :
    (∀ c d, (s.pc c).Holds → (s.pc d).Holds → c = d) ∧ s.entered <+: s.drawn :=
  ⟨fun _ _ => SpinState.eq_of_holds hn h, (SpinState.line_wf hn h).entered_isPrefix⟩

/-! ### Where a pCPU is in a call -/

/-- In `spin_lock`. -/
def SpinPc.Entering : SpinPc → Prop
  | .ldaxr | .stxr _ | .ldar _ | .wfe _ => True
  | _ => False

/-- In `spin_unlock`. -/
def SpinPc.Leaving : SpinPc → Prop
  | .ldr | .stlr _ | .sev => True
  | _ => False

theorem SpinPc.Entering.ne_inside (h : pc.Entering) : pc ≠ .inside := by
  rintro rfl
  exact h

theorem SpinPc.Leaving.ne_inside (h : pc.Leaving) : pc ≠ .inside := by
  rintro rfl
  exact h

theorem SpinPc.Leaving.not_entering (h : pc.Leaving) : ¬pc.Entering := by
  cases pc with
  | ldr => exact id
  | stlr next => exact id
  | sev => exact id
  | _ => exact h.elim

/-- An instruction of `c` leaves the others where they are, and takes `c` through `spin_lock`, with an
entry at its end, or through `spin_unlock`. -/
theorem spinExec_place {fails : Bool} (hstep : spinExec s c fails = some t) :
    (∀ d, d ≠ c → t.pc d = s.pc d) ∧
      ((s.pc c).Entering ∧ ((t.pc c).Entering ∧ t.entered = s.entered ∨
          t.pc c = .inside ∧ t.entered = s.entered ++ [c]) ∨
        (s.pc c).Leaving ∧ ((t.pc c).Leaving ∨ t.pc c = .outside) ∧ t.entered = s.entered) := by
  have hother (pc : SpinPc) : ∀ d, d ≠ c → (s.goto c pc).pc d = s.pc d :=
    fun d hdc => s.goto_pc_of_ne hdc pc
  have hentering {pc : SpinPc} (hpc : pc.Entering) : ((s.goto c pc).pc c).Entering := by
    rwa [SpinState.goto_pc_self]
  have hleaving {pc : SpinPc} (hpc : pc.Leaving) : ((s.goto c pc).pc c).Leaving := by
    rwa [SpinState.goto_pc_self]
  cases hpc : s.pc c with
  | outside => simp [spinExec, hpc] at hstep
  | inside => simp [spinExec, hpc] at hstep
  | ldaxr =>
    simp only [spinExec, hpc] at hstep
    cases hstep
    exact ⟨hother _, .inl ⟨trivial, .inl ⟨hentering trivial, rfl⟩⟩⟩
  | stxr ticket =>
    simp only [spinExec, hpc, spinStxr] at hstep
    split at hstep
    · cases hstep
      exact ⟨hother _, .inl ⟨trivial, .inl ⟨hentering trivial, rfl⟩⟩⟩
    · cases hstep
      exact ⟨hother _, .inl ⟨trivial, .inl ⟨hentering trivial, rfl⟩⟩⟩
  | ldar ticket =>
    simp only [spinExec, hpc, spinLdar] at hstep
    split at hstep
    · cases hstep
      exact ⟨hother _, .inl ⟨trivial, .inr ⟨s.goto_pc_self c _, rfl⟩⟩⟩
    · cases hstep
      exact ⟨hother _, .inl ⟨trivial, .inl ⟨hentering trivial, rfl⟩⟩⟩
  | wfe ticket =>
    simp only [spinExec, hpc, spinWfe] at hstep
    obtain ⟨-, ht⟩ := Option.ite_none_right_eq_some.mp hstep
    cases ht
    exact ⟨hother _, .inl ⟨trivial, .inl ⟨hentering trivial, rfl⟩⟩⟩
  | ldr =>
    simp only [spinExec, hpc] at hstep
    cases hstep
    exact ⟨hother _, .inr ⟨trivial, .inl (hleaving trivial), rfl⟩⟩
  | stlr next =>
    simp only [spinExec, hpc] at hstep
    cases hstep
    exact ⟨hother _, .inr ⟨trivial, .inl (hleaving trivial), rfl⟩⟩
  | sev =>
    simp only [spinExec, hpc] at hstep
    cases hstep
    exact ⟨hother _, .inr ⟨trivial, .inr (s.goto_pc_self c _), rfl⟩⟩

/-! ### Progress -/

/-- The first in the line has the next ticket, unless it holds the lock. -/
theorem SpinWf.first (h : SpinWf n s) (hfirst : s.line.line.head? = some c)
    (hfree : ¬(s.pc c).Holds) :
    s.pc c = .ldar s.lock.next ∨
      s.pc c = .wfe s.lock.next ∧ (s.event c ∨ ∃ d, s.pc d = .sev) := by
  have hmem : c ∈ s.line.line := List.mem_of_mem_head? hfirst
  have hzero {k : ℕ} (hk : s.line.line[k]? = some c) : k = 0 := by
    rw [List.head?_eq_getElem?] at hfirst
    obtain ⟨hlt, hget⟩ := List.getElem?_eq_some_iff.mp hk
    obtain ⟨hpos, hget'⟩ := List.getElem?_eq_some_iff.mp hfirst
    exact h.fair.nodup.getElem_inj_iff.mp (hget.trans hget'.symm)
  have hat := h.at_pc c
  cases hpc : s.pc c with
  | ldar ticket =>
    rw [hpc] at hat
    obtain ⟨-, k, hk, rfl⟩ := hat
    rw [hzero hk, h.next]
    exact .inl rfl
  | wfe ticket =>
    rw [hpc] at hat
    obtain ⟨⟨-, k, hk, rfl⟩, hwake⟩ := hat
    have hnext : BitVec.ofNat 32 (s.left + k) = s.lock.next := by
      rw [hzero hk, h.next]
      rfl
    rw [hnext] at hwake ⊢
    exact .inr ⟨rfl, hwake rfl⟩
  | outside =>
    rw [hpc] at hat
    exact absurd hmem hat
  | ldaxr =>
    rw [hpc] at hat
    exact absurd hmem hat
  | stxr ticket =>
    rw [hpc] at hat
    exact absurd hmem hat.1
  | sev =>
    rw [hpc] at hat
    exact absurd hmem hat
  | inside => simp [hpc, SpinPc.Holds] at hfree
  | ldr => simp [hpc, SpinPc.Holds] at hfree
  | stlr next => simp [hpc, SpinPc.Holds] at hfree

theorem spinMachine_exec (hc : c < n) (fails : Bool) :
    (spinMachine n).step s (.exec c fails) = spinExec s c fails :=
  if_pos hc

theorem spinExec_ldar_next (hc : c < n) (hpc : s.pc c = .ldar s.lock.next) :
    ∃ t, (spinMachine n).step s (.exec c false) = some t ∧ t.pc c = .inside := by
  refine ⟨spinLdar s c s.lock.next, ?_, ?_⟩
  · rw [spinMachine_exec hc, spinExec, hpc]
  · rw [spinLdar, if_pos rfl]
    exact s.goto_pc_self c .inside

theorem spinExec_wfe (hc : c < n) (hpc : s.pc c = .wfe ticket) (hevent : s.event c = true) :
    ∃ t, (spinMachine n).step s (.exec c false) = some t ∧ t.lock = s.lock ∧ t.pc c = .ldar ticket := by
  refine ⟨{ s.goto c (.ldar ticket) with event := update s.event c false }, ?_, rfl,
    s.goto_pc_self c _⟩
  rw [spinMachine_exec hc, spinExec, hpc]
  exact if_pos hevent

/-- With no other pCPU on the way, `spin_lock` does to the lock what `spinLock` says. -/
theorem run_spin_lock (hc : c < n) (hpc : s.pc c = .outside) :
    (((spinMachine n).run s [.lock c, .exec c false, .exec c false, .exec c false]).bind fun t =>
      if t.pc c = .inside then some t.lock else none) = spinLock s.lock := by
  by_cases hsame : s.lock.ticket = s.lock.next
  · simp [Machine.run, spinMachine, spinStep, hc, hpc, spinExec, spinLdaxr, spinStxr, spinLdar,
      SpinState.goto, hsame, spinLock]
  · simp [Machine.run, spinMachine, spinStep, hc, hpc, spinExec, spinLdaxr, spinStxr, spinLdar,
      SpinState.goto, hsame, spinLock]

/-! ### Two pCPUs -/

/-- A lock that nobody has taken yet. -/
def spinIdle : SpinState := ⟨spinlockInitval, fun _ => .outside, fun _ => false, fun _ => false, [], [], 0⟩

/-- Both load the ticket; pCPU 0 stores first, so that the store of pCPU 1 fails and it draws the next
ticket and goes to sleep; then pCPU 0 passes the lock on. -/
def spinHandover : List SpinAction :=
  [.lock 0, .lock 1, .exec 0 false, .exec 1 false, .exec 0 false, .exec 1 false, .exec 0 false,
    .exec 1 false, .exec 1 false, .exec 1 false, .unlock 0, .exec 0 false, .exec 0 false]

/-- Behind the handover. -/
def spinHandedOver : SpinState := ((spinMachine 2).run spinIdle spinHandover).getD spinIdle

theorem spinHandedOver_reachable : (spinMachine 2).Reachable spinHandedOver := by
  refine ⟨spinIdle, spinHandover, ⟨rfl, fun _ => rfl, rfl, rfl, rfl⟩, ?_⟩
  exact Machine.run_eq_some_iff.mp rfl

theorem spin_lock_mutual_exclusion_two :
    (∀ c d, (spinHandedOver.pc c).Holds → (spinHandedOver.pc d).Holds → c = d) ∧
      spinHandedOver.entered <+: spinHandedOver.drawn ∧ spinHandedOver.drawn = [0, 1] := by
  obtain ⟨hone, horder⟩ := spin_lock_mutual_exclusion (by decide) spinHandedOver_reachable
  exact ⟨hone, horder, rfl⟩

end Avisor
