import Avisor.Cpu.Messages
import Avisor.Lib.Machine
import Mathlib.Data.List.Sort

/-!
# The order of messages

pCPUs send messages and run the loop of `cpu_msg_handler`, interleaved call by call. New messages go
to the end of an event list, and `cpu_get_msg` takes the last one. So the messages of one sender reach
a handler in the order they were sent as long as each one taken is the only one of its sender.
-/

namespace Avisor

open Function

/-- A message that was sent, with its number among all. -/
structure Sent where
  src : PCpuId
  trgt : PCpuId
  no : Nat
  msg : CpuMsg
  deriving DecidableEq

/-- The state of `cpu.c`, with what was sent, what the nodes hold, what waits in each event list, and
what was handed to a handler, in order of time. -/
structure MsgRun where
  state : MsgState
  sent : List Sent
  origin : Nat → Sent
  waiting : PCpuId → List Sent
  handed : List Sent

/-- A call of `cpu_send_msg` on pCPU `src`, or a round of the loop of `cpu_msg_handler` on pCPU `c`. -/
inductive MsgAction
  | send (src trgt : PCpuId) (msg : CpuMsg)
  | get (c : PCpuId)

/-- The step of the machine. -/
def msgStep (cfg : MsgConfig) (x : MsgRun) : MsgAction → Option MsgRun
  | .send src trgt msg =>
    if src < cfg.hypNrCpus ∧ trgt < cfg.hypNrCpus then do
      let node ← cpuMsgNode cfg x.state
      let t ← cpuSendMsg cfg x.state trgt msg
      let e : Sent := ⟨src, trgt, x.sent.length, msg⟩
      some { state := t, sent := x.sent ++ [e], origin := update x.origin node e,
             waiting := update x.waiting trgt (x.waiting trgt ++ [e]), handed := x.handed }
    else none
  | .get c =>
    if c < cfg.hypNrCpus then do
      let node ← cpuGetNode x.state c
      let (msg, t) ← cpuGetMsg x.state c
      let e := x.origin node
      some { x with state := t, waiting := update x.waiting c ((x.waiting c).erase e),
                    handed := if cfg.handles msg then x.handed ++ [e] else x.handed }
    else none

/-- Nothing was sent, and `cpu_init` has run on every pCPU. -/
structure MsgStart (cfg : MsgConfig) (x : MsgRun) : Prop where
  boot : MsgBoot cfg x.state
  sent : x.sent = []
  waiting : ∀ c, x.waiting c = []
  handed : x.handed = []

/-- The machine of `cpu.c`. -/
def msgMachine (cfg : MsgConfig) : Machine MsgRun MsgAction where
  Init := MsgStart cfg
  step := msgStep cfg

/-- `e` goes from pCPU `src` to pCPU `trgt`. -/
def Sent.between (src trgt : PCpuId) (e : Sent) : Bool :=
  e.src = src ∧ e.trgt = trgt

/-- `e` goes from pCPU `src` to a handler on pCPU `trgt`. -/
def Sent.forHandler (cfg : MsgConfig) (src trgt : PCpuId) (e : Sent) : Bool :=
  e.between src trgt && cfg.handles e.msg

/-- From one pCPU to another, the messages handed to handlers are the first ones that were sent, in
that order. -/
def InOrder (cfg : MsgConfig) (x : MsgRun) : Prop :=
  ∀ src trgt, x.handed.filter (·.between src trgt) <+: x.sent.filter (·.forHandler cfg src trgt)

/-- The last message of the list, which `cpu_get_msg` is to take, is the only one of its sender. -/
def TakesOldest (cfg : MsgConfig) (x : MsgRun) : MsgAction → Prop
  | .send _ _ _ => True
  | .get c => ∀ e, (x.waiting c).getLast? = some e → cfg.handles e.msg = true →
      ∀ d ∈ x.waiting c, d.src = e.src → cfg.handles d.msg = true → d = e

variable {cfg : MsgConfig} {x y : MsgRun} {src trgt c : PCpuId} {msg : CpuMsg} {e : Sent}

/-- `e` was sent before `d`. -/
def Sent.Before (e d : Sent) : Prop := e.no < d.no

/-- What every step keeps: the ghosts follow the lists, and nothing is lost or doubled. -/
structure MsgWf (cfg : MsgConfig) (x : MsgRun) : Prop where
  queued : ∃ q, Queued cfg x.state q ∧ ∀ c < cfg.hypNrCpus,
    x.waiting c = (q c).map x.origin ∧ ∀ n ∈ q c, (x.origin n).msg = x.state.msg n
  sent_lt : ∀ e ∈ x.sent, e.no < x.sent.length
  sent_sorted : x.sent.Pairwise Sent.Before
  waiting_sorted : ∀ c, (x.waiting c).Pairwise Sent.Before
  waiting_sent : ∀ c, ∀ e ∈ x.waiting c, e.trgt = c ∧ e ∈ x.sent
  account : ∀ src trgt, (x.sent.filter (·.forHandler cfg src trgt)).Perm
    (x.handed.filter (·.between src trgt) ++ (x.waiting trgt).filter (·.forHandler cfg src trgt))

theorem MsgWf.init (h : MsgStart cfg x) : MsgWf cfg x where
  queued := ⟨fun _ => [], h.boot.queued, fun c _ => ⟨h.waiting c, fun n hn => absurd hn List.not_mem_nil⟩⟩
  sent_lt e he := by simp [h.sent] at he
  sent_sorted := by simp [h.sent]
  waiting_sorted c := by simp [h.waiting c]
  waiting_sent c e he := by simp [h.waiting c] at he
  account src trgt := by simp [h.sent, h.handed, h.waiting trgt]

theorem pairwise_concat {l : List Sent} (h : l.Pairwise Sent.Before)
    (hlt : ∀ d ∈ l, d.no < e.no) : (l ++ [e]).Pairwise Sent.Before := by
  refine List.pairwise_append.mpr ⟨h, List.pairwise_singleton _ _, ?_⟩
  intro d hd f hf
  rw [List.mem_singleton.mp hf]
  exact hlt d hd

/-- What a call of `cpu_send_msg` does. -/
theorem MsgWf.send_inv (h : MsgWf cfg x) (hstep : msgStep cfg x (.send src trgt msg) = some y) :
    trgt < cfg.hypNrCpus ∧ ∃ n t, y = MsgRun.mk t (x.sent ++ [⟨src, trgt, x.sent.length, msg⟩])
        (update x.origin n ⟨src, trgt, x.sent.length, msg⟩)
        (update x.waiting trgt (x.waiting trgt ++ [⟨src, trgt, x.sent.length, msg⟩])) x.handed ∧
      ∃ q, Queued cfg t q ∧ ∀ c < cfg.hypNrCpus,
        y.waiting c = (q c).map y.origin ∧ ∀ n ∈ q c, (y.origin n).msg = t.msg n := by
  obtain ⟨⟨-, htrgt⟩, hstep⟩ := Option.ite_none_right_eq_some.mp hstep
  refine ⟨htrgt, ?_⟩
  obtain ⟨q, hq, hmatch⟩ := h.queued
  rcases hq.cpuSendMsg htrgt msg with ⟨hnone, -⟩ | ⟨n, t, hnode, hsend, hmsg, hnotMem, hq'⟩
  · rw [hnone] at hstep
    cases hnode : cpuMsgNode cfg x.state with
    | none => simp [hnode] at hstep
    | some n => simp [hnode] at hstep
  rw [hnode, hsend] at hstep
  cases hstep
  refine ⟨n, t, rfl, _, hq', ?_⟩
  intro c hc
  obtain ⟨hwaiting, hcontent⟩ := hmatch c hc
  have hsame : (q c).map (update x.origin n ⟨src, trgt, x.sent.length, msg⟩) = (q c).map x.origin := by
    apply List.map_congr_left
    intro m hm
    exact update_of_ne (fun heq : m = n => hnotMem c hc (heq ▸ hm)) _ _
  have hold (m) (hm : m ∈ q c) :
      (update x.origin n ⟨src, trgt, x.sent.length, msg⟩ m).msg = t.msg m := by
    have hne : m ≠ n := fun heq => hnotMem c hc (heq ▸ hm)
    rw [update_of_ne hne, hmsg, update_of_ne hne, hcontent m hm]
  by_cases hct : c = trgt
  · subst hct
    dsimp only
    rw [update_self, update_self, List.map_append, hsame, hwaiting, List.map_singleton, update_self]
    refine ⟨rfl, ?_⟩
    intro m hm
    rcases List.mem_append.mp hm with hm | hm
    · exact hold m hm
    · rw [List.mem_singleton.mp hm, update_self, hmsg, update_self]
  · dsimp only
    rw [update_of_ne hct, update_of_ne hct, hsame]
    exact ⟨hwaiting, hold⟩

/-- What a round of `cpu_msg_handler` does: it takes the last message. -/
theorem MsgWf.get_inv (h : MsgWf cfg x) (hstep : msgStep cfg x (.get c) = some y) :
    ∃ l e t, x.waiting c = l ++ [e] ∧
      y = { x with state := t, waiting := update x.waiting c l,
                   handed := if cfg.handles e.msg then x.handed ++ [e] else x.handed } ∧
      ∃ q, Queued cfg t q ∧ ∀ d < cfg.hypNrCpus,
        y.waiting d = (q d).map x.origin ∧ ∀ n ∈ q d, (x.origin n).msg = t.msg n := by
  obtain ⟨hc, hstep⟩ := Option.ite_none_right_eq_some.mp hstep
  obtain ⟨q, hq, hmatch⟩ := h.queued
  obtain ⟨hwaiting, hcontent⟩ := hmatch c hc
  rcases List.eq_nil_or_concat (q c) with hnil | ⟨l, n, hconcat⟩
  · rw [hq.cpuGetNode_nil hc hnil] at hstep
    cases hstep
  rw [List.concat_eq_append] at hconcat
  obtain ⟨t, hget, hmsg, hq'⟩ := hq.cpuGetMsg hc hconcat
  rw [hq.cpuGetNode_concat hc hconcat, hget] at hstep
  rw [hconcat, List.map_append, List.map_singleton] at hwaiting
  have hn : n ∈ q c := by simp [hconcat]
  -- what is taken is not in the list twice
  have hsorted := h.waiting_sorted c
  rw [hwaiting] at hsorted
  have hfresh : x.origin n ∉ l.map x.origin := by
    intro hmem
    have hbefore := (List.pairwise_append.mp hsorted).2.2 _ hmem _ (List.mem_singleton_self _)
    exact Nat.lt_irrefl _ hbefore
  have herase : (x.waiting c).erase (x.origin n) = l.map x.origin := by
    rw [hwaiting, List.erase_append_right _ hfresh, List.erase_cons_head, List.append_nil]
  cases hstep
  refine ⟨l.map x.origin, x.origin n, t, hwaiting, ?_, _, hq', ?_⟩
  · rw [hcontent n hn, herase]
  intro d hd
  by_cases hdc : d = c
  · subst hdc
    dsimp only
    rw [update_self, update_self, hmsg]
    refine ⟨herase, fun m hm => hcontent m ?_⟩
    rw [hconcat]
    exact List.mem_append_left _ hm
  · dsimp only
    rw [update_of_ne hdc, update_of_ne hdc, hmsg]
    exact hmatch d hd

private theorem filter_singleton_pos {p : Sent → Bool} (h : p e = true) : [e].filter p = [e] := by
  rw [List.filter_cons_of_pos h, List.filter_nil]

private theorem filter_singleton_neg {p : Sent → Bool} (h : p e = false) : [e].filter p = [] := by
  rw [List.filter_cons_of_neg (by simp [h]), List.filter_nil]

theorem MsgWf.step (h : MsgWf cfg x) {a : MsgAction} (hstep : (msgMachine cfg).step x a = some y) :
    MsgWf cfg y := by
  cases a with
  | send src trgt msg =>
    obtain ⟨-, n, t, rfl, hqueued⟩ := h.send_inv hstep
    refine ⟨hqueued, ?_, pairwise_concat h.sent_sorted h.sent_lt, ?_, ?_, ?_⟩
    · intro d hd
      simp only [List.length_append, List.length_singleton]
      rcases List.mem_append.mp hd with hd | hd
      · exact Nat.lt_succ_of_lt (h.sent_lt d hd)
      · rw [List.mem_singleton.mp hd]
        exact Nat.lt_succ_self _
    · intro c
      by_cases hct : c = trgt
      · subst hct
        dsimp only
        rw [update_self]
        exact pairwise_concat (h.waiting_sorted c) fun d hd => h.sent_lt d (h.waiting_sent c d hd).2
      · dsimp only
        rw [update_of_ne hct]
        exact h.waiting_sorted c
    · intro c d hd
      by_cases hct : c = trgt
      · subst hct
        dsimp only at hd ⊢
        rw [update_self] at hd
        rcases List.mem_append.mp hd with hd | hd
        · exact ⟨(h.waiting_sent c d hd).1, List.mem_append_left _ (h.waiting_sent c d hd).2⟩
        · exact ⟨by rw [List.mem_singleton.mp hd], List.mem_append_right _ hd⟩
      · dsimp only at hd ⊢
        rw [update_of_ne hct] at hd
        exact ⟨(h.waiting_sent c d hd).1, List.mem_append_left _ (h.waiting_sent c d hd).2⟩
    · intro src' trgt'
      have hold := h.account src' trgt'
      dsimp only
      rw [List.filter_append]
      by_cases hct : trgt' = trgt
      · subst hct
        rw [update_self, List.filter_append, ← List.append_assoc]
        exact hold.append_right _
      · have hother : Sent.forHandler cfg src' trgt' ⟨src, trgt, x.sent.length, msg⟩ = false := by
          simp [Sent.forHandler, Sent.between, Ne.symm hct]
        rw [update_of_ne hct, filter_singleton_neg hother, List.append_nil]
        exact hold
  | get c =>
    obtain ⟨l, e, t, hwaiting, rfl, hqueued⟩ := h.get_inv hstep
    have hsub (d) : (update x.waiting c l d).Sublist (x.waiting d) := by
      by_cases hdc : d = c
      · subst hdc
        rw [update_self, hwaiting]
        exact List.sublist_append_left l [e]
      · rw [update_of_ne hdc]
    refine ⟨hqueued, h.sent_lt, h.sent_sorted, fun d => (h.waiting_sorted d).sublist (hsub d),
      fun d f hf => h.waiting_sent d f ((hsub d).subset hf), ?_⟩
    intro src trgt
    have hold := h.account src trgt
    obtain ⟨htrgt, -⟩ := h.waiting_sent c e (by simp [hwaiting])
    dsimp only
    by_cases hdc : trgt = c
    · subst hdc
      rw [update_self]
      rw [hwaiting, List.filter_append] at hold
      by_cases hhandles : cfg.handles e.msg = true
      · rw [if_pos hhandles, List.filter_append]
        refine hold.trans ?_
        by_cases hsrc : e.src = src
        · have hbetween : e.between src trgt = true := by simp [Sent.between, hsrc, htrgt]
          have hfor : e.forHandler cfg src trgt = true := by simp [Sent.forHandler, hbetween, hhandles]
          rw [filter_singleton_pos hbetween, filter_singleton_pos hfor, List.append_assoc]
          exact (List.perm_append_comm).append_left _
        · have hbetween : e.between src trgt = false := by simp [Sent.between, hsrc]
          have hfor : e.forHandler cfg src trgt = false := by simp [Sent.forHandler, hbetween]
          rw [filter_singleton_neg hbetween, filter_singleton_neg hfor, List.append_nil,
            List.append_nil]
      · have hfor : e.forHandler cfg src trgt = false := by simp [Sent.forHandler, hhandles]
        rw [if_neg hhandles]
        rw [filter_singleton_neg hfor, List.append_nil] at hold
        exact hold
    · have hbetween : e.between src trgt = false := by
        simp only [Sent.between, htrgt, Ne.symm hdc, and_false, decide_false]
      have hhanded : (if cfg.handles e.msg = true then x.handed ++ [e] else x.handed).filter
          (·.between src trgt) = x.handed.filter (·.between src trgt) := by
        by_cases hhandles : cfg.handles e.msg = true
        · rw [if_pos hhandles, List.filter_append, filter_singleton_neg hbetween, List.append_nil]
        · rw [if_neg hhandles]
      rw [update_of_ne hdc, hhanded]
      exact hold

/-- In a state in order, what waits is what is left of what was sent. -/
theorem MsgWf.split (h : MsgWf cfg x) (horder : InOrder cfg x) (src trgt : PCpuId) :
    x.sent.filter (·.forHandler cfg src trgt) =
      x.handed.filter (·.between src trgt) ++
        (x.waiting trgt).filter (·.forHandler cfg src trgt) := by
  obtain ⟨r, hr⟩ := horder src trgt
  have haccount := h.account src trgt
  rw [← hr] at haccount
  have hperm := (List.perm_append_left_iff _).mp haccount
  have hsorted := h.sent_sorted.filter (·.forHandler cfg src trgt)
  rw [← hr] at hsorted
  rw [← hr, List.Perm.eq_of_pairwise ?_ (List.pairwise_append.mp hsorted).2.1
    ((h.waiting_sorted trgt).filter _) hperm]
  intro d e _ _ hde hed
  exact absurd hde (Nat.lt_asymm hed)

/-- A step keeps the order exactly if it takes the oldest message of its sender. -/
theorem MsgWf.inOrder_iff (h : MsgWf cfg x) (horder : InOrder cfg x) {a : MsgAction}
    (hstep : (msgMachine cfg).step x a = some y) : InOrder cfg y ↔ TakesOldest cfg x a := by
  cases a with
  | send src trgt msg =>
    obtain ⟨-, n, t, rfl, -⟩ := h.send_inv hstep
    refine iff_of_true (fun src' trgt' => ?_) trivial
    dsimp only
    rw [List.filter_append]
    exact (horder src' trgt').trans (List.prefix_append _ _)
  | get c =>
    obtain ⟨l, e, t, hwaiting, rfl, -⟩ := h.get_inv hstep
    obtain ⟨htrgt, -⟩ := h.waiting_sent c e (by simp [hwaiting])
    have hsorted := h.waiting_sorted c
    rw [hwaiting] at hsorted
    have hfresh : e ∉ l := fun hmem =>
      Nat.lt_irrefl _ ((List.pairwise_append.mp hsorted).2.2 e hmem e (List.mem_singleton_self e))
    by_cases hhandles : cfg.handles e.msg = true
    · have hfor : e.forHandler cfg e.src c = true := by
        simp [Sent.forHandler, Sent.between, htrgt, hhandles]
      have hbetween : e.between e.src c = true := by simp [Sent.between, htrgt]
      -- `e` comes behind the messages of its sender that wait in front of it
      have hsplit := h.split horder e.src c
      rw [hwaiting, List.filter_append, filter_singleton_pos hfor] at hsplit
      rw [if_pos hhandles]
      constructor
      · intro hnew e' he' _ d hd hsrc hd'
        rw [hwaiting, List.getLast?_concat] at he'
        cases he'
        have hprefix := hnew e.src c
        dsimp only at hprefix
        rw [List.filter_append, filter_singleton_pos hbetween, hsplit,
          List.prefix_append_right_inj] at hprefix
        rw [hwaiting, List.mem_append, List.mem_singleton] at hd
        refine hd.resolve_left fun hmem => ?_
        have hdfor : d ∈ l.filter (·.forHandler cfg e.src c) := by
          refine List.mem_filter.mpr ⟨hmem, ?_⟩
          have hdtrgt := (h.waiting_sent c d (by simp [hwaiting, hmem])).1
          simp [Sent.forHandler, Sent.between, hsrc, hdtrgt, hd']
        cases hl : l.filter (·.forHandler cfg e.src c) with
        | nil =>
          rw [hl] at hdfor
          exact absurd hdfor List.not_mem_nil
        | cons f fs =>
          rw [hl, List.cons_append, List.cons_prefix_cons] at hprefix
          have hf : f ∈ l.filter (·.forHandler cfg e.src c) := by simp [hl]
          rw [← hprefix.1] at hf
          exact hfresh (List.mem_filter.mp hf).1
      · intro htakes src trgt
        dsimp only
        rw [List.filter_append]
        by_cases hpair : e.between src trgt = true
        · obtain ⟨rfl, rfl⟩ : e.src = src ∧ e.trgt = trgt := by simpa [Sent.between] using hpair
          obtain rfl := htrgt
          have hnil : l.filter (·.forHandler cfg e.src e.trgt) = [] := by
            refine List.filter_eq_nil_iff.mpr fun d hd hdfor => ?_
            simp only [Sent.forHandler, Sent.between, Bool.and_eq_true, decide_eq_true_eq] at hdfor
            have hde := htakes e (by rw [hwaiting, List.getLast?_concat]) hhandles d
              (by simp [hwaiting, hd]) hdfor.1.1 hdfor.2
            exact hfresh (hde ▸ hd)
          simp only [filter_singleton_pos hbetween, hsplit, hnil, List.nil_append]
          exact List.prefix_rfl
        · rw [filter_singleton_neg (by simpa using hpair), List.append_nil]
          exact horder src trgt
    · refine iff_of_true ?_ ?_
      · rw [if_neg hhandles]
        exact horder
      · intro d hd hd'
        rw [hwaiting, List.getLast?_concat] at hd
        cases hd
        exact absurd hd' hhandles

/-- In a run, all messages reach their handlers in the order they were sent exactly if each one taken
out of a list is the only one of its sender there. -/
theorem inOrder_always_iff {as : List MsgAction} (h : (msgMachine cfg).Init x) :
    (msgMachine cfg).Always (InOrder cfg) x as ↔ (msgMachine cfg).EachStep (TakesOldest cfg) x as := by
  have hstart : MsgStart cfg x := h
  have horder : InOrder cfg x := by
    intro src trgt
    simp [hstart.handed]
  refine Machine.always_iff_eachStep (I := MsgWf cfg) (H := fun _ => True)
    (fun x a y hx hstep => hx.step hstep) (fun _ _ _ _ _ _ _ _ => trivial)
    (fun x a y hx hxorder _ hstep => hx.inOrder_iff hxorder hstep) (MsgWf.init hstart) horder trivial

/-! ### Two pCPUs -/

/-- Their boot. -/
def twoCpusBoot : MsgRun where
  state := { links := { next := id, prev := id }, msg := fun _ => ⟨0, 0, 0⟩, bitmap := fun _ => 0 }
  sent := []
  origin := fun _ => ⟨0, 0, 0, ⟨0, 0, 0⟩⟩
  waiting := fun _ => []
  handed := []

theorem twoCpusBoot_init : (msgMachine twoCpus).Init twoCpusBoot where
  boot := ⟨fun _ _ => ⟨rfl, rfl⟩, fun n => by simp [twoCpusBoot, bitmapGet_eq]⟩
  sent := rfl
  waiting _ := rfl
  handed := rfl

/-- With one message at a time the order is kept. -/
theorem inOrder_oneByOne :
    (msgMachine twoCpus).Always (InOrder twoCpus) twoCpusBoot [.send 0 1 ⟨0, 3, 1⟩, .get 1] ↔
      (msgMachine twoCpus).EachStep (TakesOldest twoCpus) twoCpusBoot
        [.send 0 1 ⟨0, 3, 1⟩, .get 1] :=
  inOrder_always_iff twoCpusBoot_init

/-- Of two messages that wait, the second is handed over first. -/
theorem inOrder_reversed :
    (msgMachine twoCpus).Init twoCpusBoot ∧
      ¬ (msgMachine twoCpus).Always (InOrder twoCpus) twoCpusBoot
        [.send 0 1 ⟨0, 3, 1⟩, .send 0 1 ⟨0, 3, 2⟩, .get 1] := by
  refine ⟨twoCpusBoot_init, fun hall => ?_⟩
  obtain ⟨y, hrun, hsent, hhanded⟩ : ∃ y, (msgMachine twoCpus).run twoCpusBoot
      [.send 0 1 ⟨0, 3, 1⟩, .send 0 1 ⟨0, 3, 2⟩, .get 1] = some y ∧
      y.sent = [⟨0, 1, 0, ⟨0, 3, 1⟩⟩, ⟨0, 1, 1, ⟨0, 3, 2⟩⟩] ∧
      y.handed = [⟨0, 1, 1, ⟨0, 3, 2⟩⟩] := ⟨_, rfl, rfl, rfl⟩
  have horder := hall.last (Machine.run_eq_some_iff.mp hrun) 0 1
  rw [hsent, hhanded] at horder
  exact absurd horder (by decide)

end Avisor
