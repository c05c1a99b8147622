import Avisor.Data.Bitmap
import Avisor.Data.ListHead
import Avisor.Sched.State

/-!
# Messages between pCPUs

`cpu_send_msg` and `cpu_get_msg` of `core/cpu.c` over the message nodes of `msg_pool` and the
`event_list` of each pCPU. A pool node is its index in the pool's array. The nodes that hang in the
lists are exactly the ones taken from the pool, each in one list.
-/

namespace Avisor

open Function CircularList

/-! ### Object pools -/

/-- `objpool_alloc`, on the bitmap of a pool of `num` objects. -/
def objpoolAlloc (bitmap : Bitmap) (num : Nat) : Option (Nat × Bitmap) :=
  let n := bitmapFindNth bitmap num 1 0 false
  if n = sizeMax then none else some (n, bitmapSet bitmap n)

/-- `objpool_free`, of the object `n` of the pool. -/
def objpoolFree (bitmap : Bitmap) (n : Nat) : Bitmap :=
  bitmapClear bitmap n

theorem objpoolAlloc_spec (bitmap : Bitmap) {num : Nat} (hnum : num < sizeMax) :
    (objpoolAlloc bitmap num = none ∧ ∀ n < num, bitmapGet bitmap n = true) ∨
    ∃ n, objpoolAlloc bitmap num = some (n, bitmapSet bitmap n) ∧ n < num ∧
      bitmapGet bitmap n = false := by
  unfold objpoolAlloc
  rcases bitmapFindNth_one bitmap num 0 false with ⟨hmax, hall⟩ | ⟨n, hn, -, hlt, hget, -⟩
  · exact .inl ⟨if_pos hmax, fun n hn => by simpa using hall n (Nat.zero_le n) hn⟩
  · refine .inr ⟨n, ?_, hlt, hget⟩
    rw [hn]
    exact if_neg (by omega)

/-! ### The functions -/

/-- `struct cpu_msg`. -/
structure CpuMsg where
  handler : BitVec 32
  event : BitVec 32
  data : BitVec 64
  deriving DecidableEq

/-- What a build fixes: the number of pCPUs, `CPU_MSG_POOL_SIZE`, and the table of handlers. -/
structure MsgConfig where
  hypNrCpus : Nat
  poolSize : Nat
  ipiCpumsgHandlerNum : Nat
  ipiCpumsgHandlers : Nat → Bool
  poolSize_lt : poolSize < sizeMax

/-- `cpu_msg_handler` has somebody to hand the message to. -/
def MsgConfig.handles (cfg : MsgConfig) (msg : CpuMsg) : Bool :=
  msg.handler.toNat < cfg.ipiCpumsgHandlerNum && cfg.ipiCpumsgHandlers msg.handler.toNat

/-- The links of the event lists and of the pool's nodes, the messages in the nodes, and the bitmap of
the pool. -/
structure MsgState where
  links : Links (ListPtr PCpuId Nat)
  msg : Nat → CpuMsg
  bitmap : Bitmap

/-- The node that `cpu_send_msg` gets from the pool. -/
def cpuMsgNode (cfg : MsgConfig) (s : MsgState) : Option Nat :=
  (objpoolAlloc s.bitmap cfg.poolSize).map Prod.fst

/-- `cpu_send_msg`; `none` where it stops for want of a node. -/
def cpuSendMsg (cfg : MsgConfig) (s : MsgState) (trgtcpu : PCpuId) (msg : CpuMsg) :
    Option MsgState :=
  (objpoolAlloc s.bitmap cfg.poolSize).map fun (node, bitmap) =>
    { links := listAddTail s.links (.node node) (.head trgtcpu)
      msg := update s.msg node msg
      bitmap := bitmap }

/-- The node that `cpu_get_msg` takes on pCPU `c`, if the list is not empty. -/
def cpuGetNode (s : MsgState) (c : PCpuId) : Option Nat :=
  if listEmpty s.links (.head c) then none else listLastEntry s.links (.head c)

/-- `cpu_get_msg` on pCPU `c`; `none` where it returns `false`. -/
def cpuGetMsg (s : MsgState) (c : PCpuId) : Option (CpuMsg × MsgState) :=
  (cpuGetNode s c).map fun node =>
    (s.msg node,
      { s with links := listDel s.links (.node node), bitmap := objpoolFree s.bitmap node })

/-- The event lists as `cpu_init` leaves them, and the pool as it is loaded. -/
structure MsgBoot (cfg : MsgConfig) (s : MsgState) : Prop where
  empty : ∀ c < cfg.hypNrCpus, s.links.next (.head c) = .head c ∧ s.links.prev (.head c) = .head c
  bitmap : ∀ n, bitmapGet s.bitmap n = false

/-- Two pCPUs with the one handler of the build. -/
def twoCpus : MsgConfig where
  hypNrCpus := 2
  poolSize := 128
  ipiCpumsgHandlerNum := 1
  ipiCpumsgHandlers := fun _ => true
  poolSize_lt := by decide

/-- The messages that wait on pCPU `c`, in the order of its event list. -/
def waitingMsgs (cfg : MsgConfig) (s : MsgState) (c : PCpuId) : List CpuMsg :=
  ((listEntries s.links c (cfg.poolSize + 1) (s.links.next (.head c))).getD []).map s.msg

/-! ### The lists -/

/-- The event list of each pCPU `c` links the nodes `q c`, and the nodes in use are the linked ones. -/
structure Queued (cfg : MsgConfig) (s : MsgState) (q : PCpuId → List Nat) : Prop where
  holds : ∀ c < cfg.hypNrCpus, Holds s.links c (q c)
  apart : ∀ c < cfg.hypNrCpus, ∀ d < cfg.hypNrCpus, c ≠ d → ∀ n ∈ q c, n ∉ q d
  used : ∀ n < cfg.poolSize, bitmapGet s.bitmap n = true ↔ ∃ c < cfg.hypNrCpus, n ∈ q c
  lt : ∀ c < cfg.hypNrCpus, ∀ n ∈ q c, n < cfg.poolSize

variable {cfg : MsgConfig} {s t : MsgState} {q : PCpuId → List Nat} {c : PCpuId} {msg : CpuMsg}

theorem MsgBoot.queued (h : MsgBoot cfg s) : Queued cfg s fun _ => [] where
  holds c hc := circle_nil.mpr (h.empty c hc)
  apart c _ d _ _ n hn := absurd hn List.not_mem_nil
  used n _ := by simp [h.bitmap n]
  lt c _ n hn := absurd hn List.not_mem_nil

namespace Queued

/-- A message is linked at the end, in a node that was free, unless all nodes are linked. -/
theorem cpuSendMsg (h : Queued cfg s q) (hc : c < cfg.hypNrCpus) (msg : CpuMsg) :
    (cpuSendMsg cfg s c msg = none ∧ ∀ n < cfg.poolSize, ∃ d < cfg.hypNrCpus, n ∈ q d) ∨
    ∃ n t, cpuMsgNode cfg s = some n ∧ cpuSendMsg cfg s c msg = some t ∧
      t.msg = update s.msg n msg ∧ (∀ d < cfg.hypNrCpus, n ∉ q d) ∧
      Queued cfg t (update q c (q c ++ [n])) := by
  rcases objpoolAlloc_spec s.bitmap cfg.poolSize_lt with ⟨hnone, hall⟩ | ⟨n, hn, hlt, hfree⟩
  · left
    unfold Avisor.cpuSendMsg
    rw [hnone]
    exact ⟨rfl, fun n hn => (h.used n hn).mp (hall n hn)⟩
  right
  have hnotMem (d) (hd : d < cfg.hypNrCpus) : n ∉ q d := by
    intro hmem
    rw [(h.used n hlt).mpr ⟨d, hd, hmem⟩] at hfree
    cases hfree
  have hrun : Avisor.cpuSendMsg cfg s c msg = some
      { links := listAddTail s.links (.node n) (.head c), msg := update s.msg n msg,
        bitmap := bitmapSet s.bitmap n } := by
    unfold Avisor.cpuSendMsg
    rw [hn, Option.map_some]
  have hnode : cpuMsgNode cfg s = some n := by
    unfold cpuMsgNode
    rw [hn, Option.map_some]
  refine ⟨n, _, hnode, hrun, rfl, hnotMem, ?_⟩
  constructor
  · intro d hd
    by_cases hdc : d = c
    · subst hdc
      rw [update_self]
      exact (h.holds d hd).listAddTail (hnotMem d hd)
    · rw [update_of_ne hdc]
      exact (h.holds d hd).listAddTail_other (h.holds c hc) hdc (hnotMem d hd)
        (h.apart d hd c hc hdc)
  · intro d hd e he hde m hm
    by_cases hdc : d = c
    · subst hdc
      rw [update_of_ne hde.symm]
      rw [update_self, List.mem_append, List.mem_singleton] at hm
      rcases hm with hm | rfl
      · exact h.apart d hd e he hde m hm
      · exact hnotMem e he
    · rw [update_of_ne hdc] at hm
      by_cases hec : e = c
      · subst hec
        rw [update_self, List.mem_append, List.mem_singleton, not_or]
        exact ⟨h.apart d hd e he hde m hm, fun heq => hnotMem d hd (heq ▸ hm)⟩
      · rw [update_of_ne hec]
        exact h.apart d hd e he hde m hm
  · intro m hm
    dsimp only
    rw [bitmapGet_set, Bool.or_eq_true, decide_eq_true_iff, h.used m hm]
    constructor
    · rintro (rfl | ⟨d, hd, hmem⟩)
      · exact ⟨c, hc, by simp⟩
      · refine ⟨d, hd, ?_⟩
        by_cases hdc : d = c
        · subst hdc
          rw [update_self]
          exact List.mem_append_left _ hmem
        · rwa [update_of_ne hdc]
    · rintro ⟨d, hd, hmem⟩
      by_cases hdc : d = c
      · subst hdc
        rw [update_self, List.mem_append, List.mem_singleton] at hmem
        exact hmem.symm.imp_right fun hmem => ⟨d, hd, hmem⟩
      · rw [update_of_ne hdc] at hmem
        exact .inr ⟨d, hd, hmem⟩
  · intro d hd m hm
    by_cases hdc : d = c
    · subst hdc
      rw [update_self, List.mem_append, List.mem_singleton] at hm
      rcases hm with hm | rfl
      · exact h.lt d hd m hm
      · exact hlt
    · rw [update_of_ne hdc] at hm
      exact h.lt d hd m hm

theorem cpuGetNode_nil (h : Queued cfg s q) (hc : c < cfg.hypNrCpus) (hq : q c = []) :
    cpuGetNode s c = none :=
  if_pos ((h.holds c hc).listEmpty_iff.mpr hq)

theorem cpuGetNode_concat (h : Queued cfg s q) (hc : c < cfg.hypNrCpus) {l : List Nat} {n : Nat}
    (hq : q c = l ++ [n]) : cpuGetNode s c = some n := by
  have hholds := h.holds c hc
  rw [hq] at hholds
  have hne : listEmpty s.links (.head c) ≠ true := by
    rw [ne_eq, hholds.listEmpty_iff]
    simp
  unfold cpuGetNode
  rw [if_neg hne, hholds.listLastEntry]

/-- The last message of the list is taken out. -/
theorem cpuGetMsg (h : Queued cfg s q) (hc : c < cfg.hypNrCpus) {l : List Nat} {n : Nat}
    (hq : q c = l ++ [n]) : ∃ t, cpuGetMsg s c = some (s.msg n, t) ∧ t.msg = s.msg ∧
      Queued cfg t (update q c l) := by
  have hholds := h.holds c hc
  have hnodup := hholds.nodup
  rw [hq] at hholds hnodup
  have hn : n ∉ l := fun hmem => (List.nodup_append.mp hnodup).2.2 n hmem n (by simp) rfl
  have hmemc : n ∈ q c := by simp [hq]
  have hrun : Avisor.cpuGetMsg s c = some (s.msg n,
      { s with links := listDel s.links (.node n), bitmap := objpoolFree s.bitmap n }) := by
    unfold Avisor.cpuGetMsg
    rw [h.cpuGetNode_concat hc hq, Option.map_some]
  refine ⟨_, hrun, rfl, ?_⟩
  have hsub (d) (m) (hm : m ∈ update q c l d) : m ∈ q d := by
    by_cases hdc : d = c
    · subst hdc
      rw [update_self] at hm
      rw [hq]
      exact List.mem_append_left _ hm
    · rwa [update_of_ne hdc] at hm
  constructor
  · intro d hd
    by_cases hdc : d = c
    · subst hdc
      rw [update_self]
      simpa using hholds.listDel
    · rw [update_of_ne hdc]
      refine (h.holds d hd).listDel_other hholds hdc ?_
      intro m hm
      rw [← hq]
      exact h.apart d hd c hc hdc m hm
  · intro d hd e he hde m hm
    exact fun hm' => h.apart d hd e he hde m (hsub d m hm) (hsub e m hm')
  · intro m hm
    dsimp only
    rw [objpoolFree, bitmapGet_clear, Bool.and_eq_true, Bool.not_eq_true', decide_eq_false_iff_not,
      h.used m hm]
    constructor
    · rintro ⟨hne, d, hd, hmem⟩
      refine ⟨d, hd, ?_⟩
      by_cases hdc : d = c
      · subst hdc
        rw [update_self]
        rw [hq, List.mem_append, List.mem_singleton] at hmem
        exact hmem.resolve_right hne
      · rwa [update_of_ne hdc]
    · rintro ⟨d, hd, hmem⟩
      refine ⟨?_, d, hd, hsub d m hmem⟩
      rintro rfl
      by_cases hdc : d = c
      · subst hdc
        rw [update_self] at hmem
        exact hn hmem
      · rw [update_of_ne hdc] at hmem
        exact h.apart d hd c hc hdc m hmem hmemc
  · intro d hd m hm
    exact h.lt d hd m (hsub d m hm)

theorem waitingMsgs (h : Queued cfg s q) (hc : c < cfg.hypNrCpus) :
    waitingMsgs cfg s c = (q c).map s.msg := by
  have hholds := h.holds c hc
  have hsubset : q c ⊆ List.range cfg.poolSize := fun n hn => List.mem_range.mpr (h.lt c hc n hn)
  have hlength := (hholds.nodup.subperm hsubset).length_le
  rw [List.length_range] at hlength
  unfold Avisor.waitingMsgs
  rw [hholds.listEntries (by omega : (q c).length < cfg.poolSize + 1), Option.getD_some]

end Queued

/-- Some lists of nodes hang in the event lists, as the functions expect. -/
def MsgWellFormed (cfg : MsgConfig) (s : MsgState) : Prop := ∃ q, Queued cfg s q

theorem MsgBoot.wellFormed (h : MsgBoot cfg s) : MsgWellFormed cfg s := ⟨_, h.queued⟩

theorem MsgBoot.waitingMsgs (h : MsgBoot cfg s) (hc : c < cfg.hypNrCpus) :
    waitingMsgs cfg s c = [] := h.queued.waitingMsgs hc

/-- A message that is sent waits behind the others. -/
theorem MsgWellFormed.send (h : MsgWellFormed cfg s) {trgt : PCpuId} (htrgt : trgt < cfg.hypNrCpus)
    (hsend : Avisor.cpuSendMsg cfg s trgt msg = some t) :
    MsgWellFormed cfg t ∧ ∀ c < cfg.hypNrCpus,
      waitingMsgs cfg t c = if c = trgt then waitingMsgs cfg s c ++ [msg] else waitingMsgs cfg s c := by
  obtain ⟨q, hq⟩ := h
  rcases hq.cpuSendMsg htrgt msg with ⟨hnone, -⟩ | ⟨n, u, -, hsome, hmsg, hfresh, hqueued⟩
  · rw [hnone] at hsend
    cases hsend
  · rw [hsome] at hsend
    cases hsend
    refine ⟨⟨_, hqueued⟩, fun c hc => ?_⟩
    have hcongr (l : List Nat) (hl : n ∉ l) : l.map (update s.msg n msg) = l.map s.msg := by
      apply List.map_congr_left
      intro m hm
      apply update_of_ne
      rintro rfl
      exact hl hm
    rw [hqueued.waitingMsgs hc, hq.waitingMsgs hc, hmsg]
    by_cases hct : c = trgt
    · subst hct
      rw [if_pos rfl, update_self, List.map_append, hcongr _ (hfresh c hc), List.map_singleton,
        update_self]
    · rw [if_neg hct, update_of_ne hct, hcongr _ (hfresh c hc)]

/-- `cpu_get_msg` takes the last message, if one waits. -/
theorem MsgWellFormed.get (h : MsgWellFormed cfg s) (hc : c < cfg.hypNrCpus) :
    (Avisor.cpuGetMsg s c = none ∧ waitingMsgs cfg s c = []) ∨
    ∃ msg t, Avisor.cpuGetMsg s c = some (msg, t) ∧ MsgWellFormed cfg t ∧
      waitingMsgs cfg s c = waitingMsgs cfg t c ++ [msg] ∧
      ∀ d < cfg.hypNrCpus, d ≠ c → waitingMsgs cfg t d = waitingMsgs cfg s d := by
  obtain ⟨q, hq⟩ := h
  rcases List.eq_nil_or_concat' (q c) with hnil | ⟨l, n, hconcat⟩
  · left
    unfold Avisor.cpuGetMsg
    rw [hq.cpuGetNode_nil hc hnil, hq.waitingMsgs hc, hnil]
    exact ⟨rfl, rfl⟩
  · right
    obtain ⟨t, hget, hmsg, hqueued⟩ := hq.cpuGetMsg hc hconcat
    refine ⟨s.msg n, t, hget, ⟨_, hqueued⟩, ?_, fun d hd hdc => ?_⟩
    · rw [hq.waitingMsgs hc, hqueued.waitingMsgs hc, hmsg, hconcat, update_self, List.map_append,
        List.map_singleton]
    · rw [hq.waitingMsgs hd, hqueued.waitingMsgs hd, hmsg, update_of_ne hdc]

/-- Behind `cpu_get_msg` a node is free for a message. -/
theorem MsgWellFormed.send_of_get (h : MsgWellFormed cfg s) (hc : c < cfg.hypNrCpus)
    (hget : Avisor.cpuGetMsg s c = some (msg, t)) {trgt : PCpuId} (htrgt : trgt < cfg.hypNrCpus)
    (msg' : CpuMsg) : ∃ u, Avisor.cpuSendMsg cfg t trgt msg' = some u := by
  obtain ⟨q, hq⟩ := h
  rcases List.eq_nil_or_concat' (q c) with hnil | ⟨l, n, hconcat⟩
  · unfold Avisor.cpuGetMsg at hget
    rw [hq.cpuGetNode_nil hc hnil] at hget
    cases hget
  · obtain ⟨u, hget', -, hqueued⟩ := hq.cpuGetMsg hc hconcat
    rw [hget] at hget'
    cases hget'
    have hmem : n ∈ q c := by simp [hconcat]
    have hnodup := (hq.holds c hc).nodup
    rw [hconcat] at hnodup
    rcases hqueued.cpuSendMsg htrgt msg' with ⟨-, hall⟩ | ⟨-, v, -, hsome, -⟩
    · obtain ⟨d, hd, hn⟩ := hall n (hq.lt c hc n hmem)
      exfalso
      by_cases hdc : d = c
      · subst hdc
        rw [update_self] at hn
        exact (List.nodup_append.mp hnodup).2.2 n hn n (by simp) rfl
      · rw [update_of_ne hdc] at hn
        exact hq.apart c hc d hd (Ne.symm hdc) n hmem hn
    · exact ⟨v, hsome⟩

end Avisor
