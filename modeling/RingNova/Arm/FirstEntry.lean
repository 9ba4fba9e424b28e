/-
# The first entry of a process

`process_build_initial_frame` (`process.c`) lays down a frame as if the process had been
suspended in `context_switch` on its way back from an interrupt, so that its first entry is a
resume like any other.  The builder numbers the words of the frame by hand, `context_switch.S`
and `ret_from_first_entry` pop them in three pieces, and both reach the PCB through byte
offsets; that all of this fits together is `first_entry_equals_resume`.

The PCBs and the kernel stacks are objects in memory that do not overlap.  Nothing else is
assumed about where they are: all address arithmetic is modulo `2 ^ 32`.

The code runs on the address space that the kernel sees, which is the same under every page
table, so that the write to TTBR0 in the middle of `context_switch` does not change it.  The
words that are read are recorded, in order.
-/
import RingNova.Arm.Assembly
import RingNova.Arm.Machine
import RingNova.Lib.Memory32

namespace RingNova

open Isa

/-! ### The layout of a PCB -/

/-- The members of `proc_context_t`. -/
inductive CtxField
  | r (i : Fin 13)
  | spSvc
  | lrSvc
  | spsr
  | spUsr
  | lrUsr
deriving DecidableEq

/-- The members in the order of their declaration; each is a word. -/
def ctxFields : List CtxField :=
  (List.finRange 13).map .r ++ [.spSvc, .lrSvc, .spsr, .spUsr, .lrUsr]

/-- `offsetof(proc_context_t, ..)`. -/
def CtxField.offset (f : CtxField) : Word := BitVec.ofNat 32 (4 * ctxFields.idxOf f)

/-- The members of `process_t` behind `ctx`. -/
inductive ProcField
  | pid
  | state
  | name
  | pgd
  | pgdPa
  | kstackBase
  | kstackSize
  | userEntry
  | userStackTop
  | userPhysBase
deriving DecidableEq

/-- The members in the order of their declaration; each is a word. -/
def procFields : List ProcField :=
  [.pid, .state, .name, .pgd, .pgdPa, .kstackBase, .kstackSize, .userEntry, .userStackTop,
    .userPhysBase]

/-- `offsetof(process_t, ..)`. -/
def ProcField.offset (f : ProcField) : Word :=
  BitVec.ofNat 32 (4 * (ctxFields.length + procFields.idxOf f))

/-- `ctx` in a PCB. -/
def ctxSpan (p : Word) : Span := ⟨p, 4 * ctxFields.length⟩

/-- A PCB. -/
def pcbSpan (p : Word) : Span := ⟨p, 4 * (ctxFields.length + procFields.length)⟩

/-- The `_Static_assert`s of `proc.h`: the constants in `context_switch.S` are right. -/
lemma offsets_agree :
    CtxField.spSvc.offset = ctxSpSvcOffset ∧ CtxField.spUsr.offset = ctxSpUsrOffset ∧
      CtxField.lrUsr.offset = ctxLrUsrOffset ∧ ProcField.pgdPa.offset = procPgdPaOffset := by
  decide

/-! ### `process_build_initial_frame` -/

/-- `INIT_STACK_WORDS`. -/
def initStackWords : ℕ := 9 + 16

/-- `p->kstack_base + p->kstack_size`. -/
def stackTop (m : Memory32) (p : Word) : Word :=
  m.load32 (p + ProcField.kstackBase.offset) + m.load32 (p + ProcField.kstackSize.offset)

/-- `frame`. -/
def framePtr (m : Memory32) (p : Word) : Word :=
  stackTop m p - BitVec.ofNat 32 (4 * initStackWords)

/-- The kernel stack of a process. -/
def stackSpan (m : Memory32) (p : Word) : Span :=
  ⟨m.load32 (p + ProcField.kstackBase.offset), (m.load32 (p + ProcField.kstackSize.offset)).toNat⟩

/-- `frame[i] = w`. -/
def setWord (m : Memory32) (frame : Word) (i : ℕ) (w : Word) : Memory32 :=
  m.store32 (frame + BitVec.ofNat 32 (4 * i)) w

/-- `process_build_initial_frame`; `ret` is the address of `ret_from_first_entry`. -/
def processBuildInitialFrame (ret : Word) (m : Memory32) (p : Word) : Memory32 :=
  let frame := framePtr m p
  -- the frame for `context_switch`
  let m := (List.range 8).foldl (fun m i => setWord m frame i 0#32) m
  let m := setWord m frame 8 ret
  -- the frame for `ret_from_first_entry`
  let m := (List.range 13).foldl (fun m i => setWord m frame (9 + i) 0#32) m
  let m := setWord m frame 22 0#32
  let m := setWord m frame 23 (m.load32 (p + ProcField.userEntry.offset))
  let m := setWord m frame 24 0x10#32
  let m := m.store32 (p + CtxField.spSvc.offset) frame
  let m := m.store32 (p + CtxField.lrSvc.offset) 0#32
  let m := m.store32 (p + CtxField.spsr.offset) 0x10#32
  let m := m.store32 (p + CtxField.spUsr.offset) userStackTop
  m.store32 (p + CtxField.lrUsr.offset) 0#32

/-! ### What the builder leaves -/

section

variable {m : Memory32} {a p ret : Word}

lemma setWord_within (m : Memory32) (frame : Word) {i n : ℕ} (w : Word) (hi : i < n)
    (hn : 4 * n ≤ 2 ^ 32) : Memory32.Within ⟨frame, 4 * n⟩ m (setWord m frame i w) :=
  (Memory32.store32_within _ _ _).mono (Span.within_add frame (by omega) (by omega))

/-- A word of the frame, after some of them have been written in any order. -/
lemma load32_foldl_setWord {ws : List (ℕ × Word)} (frame : Word) (m : Memory32)
    (hnodup : (ws.map Prod.fst).Nodup) (hlt : ∀ w ∈ ws, 4 * w.1 + 4 ≤ 2 ^ 32) {i : ℕ} {v : Word}
    (hmem : (i, v) ∈ ws) :
    (ws.foldl (fun m w => setWord m frame w.1 w.2) m).load32
      (frame + BitVec.ofNat 32 (4 * i)) = v := by
  induction ws using List.reverseRecOn with
  | nil => simp at hmem
  | append_singleton ws w ih =>
    rw [List.map_append, List.nodup_append] at hnodup
    rw [List.foldl_append, List.foldl_cons, List.foldl_nil]
    rcases List.mem_append.1 hmem with hold | hnew
    · -- the last word is another one
      have hne : i ≠ w.1 := fun h => hnodup.2.2 i (List.mem_map_of_mem hold) w.1 (by simp) h
      have hi := hlt _ hmem
      have hw := hlt w (by simp)
      have hapart : Span.Apart ⟨frame + BitVec.ofNat 32 (4 * i), 4⟩
          ⟨frame + BitVec.ofNat 32 (4 * w.1), 4⟩ := by
        rcases Nat.lt_or_gt_of_ne hne with h | h
        · exact Span.apart_add frame (by omega) (by omega) (by omega)
        · exact (Span.apart_add frame (by simp only at hi; omega) (by omega)
            (by simp only at hi; omega)).symm
      rw [setWord, (Memory32.store32_within _ _ _).load32 hapart]
      exact ih hnodup.1 (fun w hw => hlt w (List.mem_append_left _ hw)) hold
    · obtain rfl : (i, v) = w := by simpa using hnew
      exact Memory32.load32_store32 _ _ _

lemma foldl_setWord_within (ws : List (ℕ × Word)) (frame : Word) (m : Memory32) {n : ℕ}
    (hn : 4 * n ≤ 2 ^ 32) (hlt : ∀ w ∈ ws, w.1 < n) :
    Memory32.Within ⟨frame, 4 * n⟩ m (ws.foldl (fun m w => setWord m frame w.1 w.2) m) := by
  induction ws generalizing m with
  | nil => exact Memory32.Within.refl _ m
  | cons w ws ih =>
    refine (setWord_within m frame w.2 (hlt w List.mem_cons_self) hn).trans ?_
    exact ih _ fun w hw => hlt w (List.mem_cons_of_mem _ hw)

/-- The frame is inside the kernel stack. -/
lemma frame_within (h : 100 ≤ (m.load32 (p + ProcField.kstackSize.offset)).toNat) :
    Span.Within ⟨framePtr m p, 4 * initStackWords⟩ (stackSpan m p) := by
  have hlt := (m.load32 (p + ProcField.kstackSize.offset)).isLt
  have haddr : framePtr m p = m.load32 (p + ProcField.kstackBase.offset) +
      BitVec.ofNat 32 ((m.load32 (p + ProcField.kstackSize.offset)).toNat - 100) := by
    apply BitVec.eq_of_toNat_eq
    simp only [framePtr, stackTop, initStackWords, BitVec.toNat_sub, BitVec.toNat_add,
      BitVec.toNat_ofNat]
    omega
  rw [haddr]
  refine Span.within_add _ (by omega) ?_
  simp only [initStackWords]
  omega

lemma ctxSpan_within (p : Word) : (ctxSpan p).Within (pcbSpan p) := by
  have h := Span.within_add p (k := 0) (m := 4 * ctxFields.length)
    (n := 4 * (ctxFields.length + procFields.length)) (by decide) (by decide)
  simpa [ctxSpan, pcbSpan] using h

/-- A word of `ctx`. -/
lemma ctx_within (p : Word) {k : ℕ} (hk : k < 18) :
    Span.Within ⟨p + BitVec.ofNat 32 (4 * k), 4⟩ (ctxSpan p) := by
  refine Span.within_add p (by omega) ?_
  have hlen : ctxFields.length = 18 := rfl
  omega

/-- `pgd_pa` is behind `ctx`. -/
lemma pgdPa_apart (p : Word) : Span.Apart ⟨p + procPgdPaOffset, 4⟩ (ctxSpan p) := by
  have h := Span.apart_add p (k := 0) (m := 72) (l := 88) (n := 4) (by decide) (by decide)
    (by decide)
  rw [BitVec.add_zero] at h
  exact h.symm

/-- A member of a PCB. -/
lemma field_within (p : Word) (f : ProcField) : Span.Within ⟨p + f.offset, 4⟩ (pcbSpan p) := by
  refine Span.within_add p ?_ ?_
  · cases f <;> decide
  · cases f <;> decide

/-- The frame's words in the order in which they are written. -/
def frameWrites (ret entry : Word) : List (ℕ × Word) :=
  (List.range 8).map (fun i => (i, 0#32)) ++ [(8, ret)] ++
    (List.range 13).map (fun i => (9 + i, 0#32)) ++ [(22, 0#32), (23, entry), (24, 0x10#32)]

/-- The words of `ctx` that are written. -/
def ctxWrites (frame : Word) : List (ℕ × Word) :=
  [(13, frame), (14, 0#32), (15, 0x10#32), (16, userStackTop), (17, 0#32)]

lemma frameWrites_lt (ret entry : Word) : ∀ w ∈ frameWrites ret entry, w.1 < 25 := by
  intro w hw
  simp only [frameWrites, List.mem_append, List.mem_map, List.mem_range, List.mem_cons,
    List.not_mem_nil, or_false] at hw
  rcases hw with ((⟨i, hi, rfl⟩ | rfl) | ⟨i, hi, rfl⟩) | rfl | rfl | rfl <;> simp only <;> omega

lemma frameWrites_nodup (ret entry : Word) : ((frameWrites ret entry).map Prod.fst).Nodup := by
  have h : (frameWrites ret entry).map Prod.fst = List.range 25 := rfl
  rw [h]
  exact List.nodup_range

/-- Every word of the frame is written. -/
lemma mem_frameWrites (ret entry : Word) {i : ℕ} (hi : i < 25) :
    (i, (frameWords ret entry).get ⟨i, hi⟩) ∈ frameWrites ret entry := by
  have hget : ∀ i (hi : i < (frameWords ret entry).length),
      (frameWrites ret entry)[i]? = some (i, (frameWords ret entry).get ⟨i, hi⟩) := by
    intro i hi
    have hi' : i < 25 := hi
    interval_cases i <;> rfl
  exact List.mem_of_getElem? (hget i hi)

/-- The builder writes a list of words to the frame, and then one to the PCB. -/
lemma processBuildInitialFrame_eq (ret : Word)
    (hsize : 100 ≤ (m.load32 (p + ProcField.kstackSize.offset)).toNat)
    (hapart : (pcbSpan p).Apart (stackSpan m p)) :
    processBuildInitialFrame ret m p =
      (ctxWrites (framePtr m p)).foldl (fun m' w => setWord m' p w.1 w.2)
        ((frameWrites ret (m.load32 (p + ProcField.userEntry.offset))).foldl
          (fun m' w => setWord m' (framePtr m p) w.1 w.2) m) := by
  -- `user_entry` is read after 23 words have been written
  have hentry := (foldl_setWord_within ((frameWrites ret 0#32).take 23) (framePtr m p) m
    (n := 25) (by decide) fun w hw => frameWrites_lt _ _ w (List.mem_of_mem_take hw)).load32
    (hapart.mono (field_within p .userEntry) (frame_within hsize))
  simp only [processBuildInitialFrame, frameWrites, ctxWrites, List.foldl_append, List.foldl_map,
    List.foldl_cons, List.foldl_nil]
  rw [← hentry]
  rfl

/-- What the builder has laid down, in a later memory. -/
structure FrameBuilt (ret : Word) (m : Memory32) (p : Word) (m' : Memory32) : Prop where
  spSvc : m'.load32 (p + ctxSpSvcOffset) = framePtr m p
  spUsr : m'.load32 (p + ctxSpUsrOffset) = userStackTop
  lrUsr : m'.load32 (p + ctxLrUsrOffset) = 0#32
  pgdPa : m'.load32 (p + procPgdPaOffset) = m.load32 (p + procPgdPaOffset)
  frame : ∀ i (hi : i < 25), m'.load32 (framePtr m p + BitVec.ofNat 32 (4 * i)) =
    (frameWords ret (m.load32 (p + ProcField.userEntry.offset))).get ⟨i, hi⟩

/-- **The builder.** -/
lemma frameBuilt_processBuildInitialFrame (ret : Word)
    (hsize : 100 ≤ (m.load32 (p + ProcField.kstackSize.offset)).toNat)
    (hapart : (pcbSpan p).Apart (stackSpan m p)) :
    FrameBuilt ret m p (processBuildInitialFrame ret m p) := by
  rw [processBuildInitialFrame_eq ret hsize hapart]
  have hctx : ∀ i v, (i, v) ∈ ctxWrites (framePtr m p) → ∀ m' : Memory32,
      ((ctxWrites (framePtr m p)).foldl (fun m' w => setWord m' p w.1 w.2) m').load32
        (p + BitVec.ofNat 32 (4 * i)) = v := by
    intro i v hmem m'
    refine load32_foldl_setWord p m' (by simp [ctxWrites]) ?_ hmem
    simp [ctxWrites]
  have hwithin : ∀ m' : Memory32, Memory32.Within (ctxSpan p) m'
      ((ctxWrites (framePtr m p)).foldl (fun m' w => setWord m' p w.1 w.2) m') := by
    intro m'
    refine foldl_setWord_within (n := 18) _ p m' (by decide) ?_
    simp [ctxWrites]
  have hfw := frame_within hsize
  have hframe := foldl_setWord_within (n := 25) _ (framePtr m p) m (by decide)
    (frameWrites_lt ret (m.load32 (p + ProcField.userEntry.offset)))
  refine ⟨?_, ?_, ?_, ?_, ?_⟩
  · exact hctx 13 _ (by simp [ctxWrites]) _
  · exact hctx 16 _ (by simp [ctxWrites]) _
  · exact hctx 17 _ (by simp [ctxWrites]) _
  · rw [(hwithin _).load32 (pgdPa_apart p)]
    exact hframe.load32 (hapart.mono (field_within p .pgdPa) hfw)
  · intro i hi
    have hword : Span.Within ⟨framePtr m p + BitVec.ofNat 32 (4 * i), 4⟩
        ⟨framePtr m p, 4 * initStackWords⟩ := by
      refine Span.within_add _ (by omega) ?_
      simp only [initStackWords]
      omega
    have hfar : Span.Apart ⟨framePtr m p + BitVec.ofNat 32 (4 * i), 4⟩ (ctxSpan p) :=
      hapart.symm.mono (fun x hx => hfw x (hword x hx)) (ctxSpan_within p)
    rw [(hwithin _).load32 hfar]
    refine load32_foldl_setWord _ m (frameWrites_nodup _ _) ?_ (mem_frameWrites _ _ hi)
    intro w hw
    have := frameWrites_lt _ _ w hw
    omega

/-- What a suspended process rests on is as it was: its `ctx`, its `pgd_pa` and its frame. -/
structure Untouched (p : Word) (frame : Span) (m m' : Memory32) : Prop where
  ctx : Memory32.Agree (ctxSpan p) m m'
  pgd : Memory32.Agree ⟨p + procPgdPaOffset, 4⟩ m m'
  frame : Memory32.Agree frame m m'

lemma Untouched.ctxWord {frame : Span} {m' : Memory32} (h : Untouched p frame m m') {k : ℕ}
    (hk : k < 18) :
    m'.load32 (p + BitVec.ofNat 32 (4 * k)) = m.load32 (p + BitVec.ofNat 32 (4 * k)) :=
  (Memory32.load32_congr (h.ctx.mono (ctx_within p hk))).symm

lemma Untouched.pgdPa {frame : Span} {m' : Memory32} (h : Untouched p frame m m') :
    m'.load32 (p + procPgdPaOffset) = m.load32 (p + procPgdPaOffset) :=
  (Memory32.load32_congr h.pgd).symm

lemma Untouched.frameWord {n : ℕ} {m' : Memory32} (h : Untouched p ⟨a, 4 * n⟩ m m')
    (hn : 4 * n ≤ 2 ^ 32) {i : ℕ} (hi : i < n) :
    m'.load32 (a + BitVec.ofNat 32 (4 * i)) = m.load32 (a + BitVec.ofNat 32 (4 * i)) :=
  (Memory32.load32_congr (h.frame.mono (Span.within_add a (by omega) (by omega)))).symm

lemma FrameBuilt.congr {m' m'' : Memory32} (h : FrameBuilt ret m p m')
    (hun : Untouched p ⟨framePtr m p, 4 * initStackWords⟩ m' m'') : FrameBuilt ret m p m'' := by
  refine ⟨(hun.ctxWord (k := 13) (by omega)).trans h.spSvc,
    (hun.ctxWord (k := 16) (by omega)).trans h.spUsr,
    (hun.ctxWord (k := 17) (by omega)).trans h.lrUsr, hun.pgdPa.trans h.pgdPa, ?_⟩
  intro i hi
  rw [← h.frame i hi]
  exact hun.frameWord (by decide) hi

end

/-! ### The address space of the kernel -/

/-- Memory, the table in use, and the addresses of the words that have been read. -/
structure Recorded where
  mem : Memory32
  ttbr0 : Word
  reads : List Word

/-- The address space that the kernel sees, with this code in it. -/
def recordBus (code : Word → Option Instr) : Bus Recorded where
  idle m := m
  fetch _ _ a := if a &&& 3#32 = 0#32 then code a else none
  load m _ a := some (m.mem.load32 a, { m with reads := m.reads ++ [a] })
  store m _ a w := some { m with mem := m.mem.store32 a w }
  mcr m reg x :=
    match reg with
    | .ttbr0 => some { m with ttbr0 := x }
    | .tlbiall | .iciallu => some m
    | _ => none
  mrc _ _ := none

/-- The addresses of some words. -/
def wordsFrom (a : Word) (n : ℕ) : List Word :=
  (List.range n).map fun i => a + BitVec.ofNat 32 (4 * i)

/-- Words are read one after the other. -/
lemma wordsFrom_add (a : Word) (m n : ℕ) :
    wordsFrom a (m + n) = wordsFrom a m ++ wordsFrom (a + BitVec.ofNat 32 (4 * m)) n := by
  rw [wordsFrom, List.range_add, List.map_append, List.map_map, wordsFrom, wordsFrom]
  congr 1
  refine List.map_congr_left fun i _ => ?_
  rw [Function.comp, BitVec.add_assoc, ← BitVec.ofNat_add, Nat.mul_add]

section

variable {code : Word → Option Instr} {a : Word} {n : ℕ} (m : Recorded) (priv : Bool)

lemma wordsFrom_succ (a : Word) (n : ℕ) : wordsFrom a (n + 1) = a :: wordsFrom (a + 4#32) n := by
  rw [Nat.add_comm, wordsFrom_add]
  simp [wordsFrom]

lemma loads_recordBus : (recordBus code).loads m priv a n =
    some ((wordsFrom a n).map m.mem.load32, { m with reads := m.reads ++ wordsFrom a n }) := by
  induction n generalizing a m with
  | zero => simp [Bus.loads, wordsFrom]
  | succ n ih =>
    rw [Bus.loads, wordsFrom_succ]
    simp only [recordBus, Option.bind_eq_bind, Option.bind_some, Option.pure_def] at ih ⊢
    rw [ih]
    simp

lemma stores_recordBus (ws : List Word) : (recordBus code).stores m priv a ws =
    some { m with mem := m.mem.storeWords a ws } := by
  induction ws generalizing a with
  | nil => rfl
  | cons w ws ih =>
    rw [Bus.stores, ih]
    rfl

/-- Code is fetched from aligned addresses. -/
lemma aligned_of_sits {i : Instr} {is : List Instr} (h : Sits (recordBus code) a (i :: is)) :
    a &&& 3#32 = 0#32 := by
  have hfetch := h.1 ⟨fun _ => 0#8, 0#32, []⟩
  simp only [recordBus, Option.ite_none_right_eq_some] at hfetch
  exact hfetch.1

end

/-! ### Calls of `context_switch` -/

/-- The core and what it works on. -/
abbrev SwitchState := St Recorded

/-- A call of `context_switch(prev, next)`, from kernel code. -/
structure SwitchCall (code : Word → Option Instr) (switch prev next : Word) (s : SwitchState) :
    Prop where
  sits : Sits (recordBus code) switch contextSwitchCode
  pc : s.core.pc = switch
  r0 : s.core.r 0 = prev
  r1 : s.core.r 1 = next
  privileged : privileged s.core.cpsr = true
  /-- The kernel is ARM code. -/
  arm : s.core.cpsr.getLsbD 5 = false
  /-- A process switches away in SVC mode, on its kernel stack. -/
  svc : prev ≠ 0#32 → s.core.cpsr &&& 0x1F#32 = 0x13#32

/-- What the load side reads for a process. -/
def contextAt (m : Memory32) (p : Word) : Context where
  pgdPa := m.load32 (p + procPgdPaOffset)
  spSvc := m.load32 (p + ctxSpSvcOffset)
  spUsr := m.load32 (p + ctxSpUsrOffset)
  lrUsr := m.load32 (p + ctxLrUsrOffset)
  frame i := m.load32 (m.load32 (p + ctxSpSvcOffset) + BitVec.ofNat 32 (4 * i))

/-- The memory system after the load side. -/
def restored (m : Recorded) (p : Word) : Recorded where
  mem := m.mem
  ttbr0 := m.mem.load32 (p + procPgdPaOffset) ||| 0x4A#32
  reads := m.reads ++ [p + procPgdPaOffset, p + ctxSpUsrOffset, p + ctxLrUsrOffset,
    p + ctxSpSvcOffset] ++ wordsFrom (m.mem.load32 (p + ctxSpSvcOffset)) 9

lemma restores_recordBus (code : Word → Option Instr) (m : Recorded) (p : Word) :
    Restores (recordBus code) p (contextAt m.mem p) m (restored m p) := by
  refine ⟨_, _, _, _, _, _, _, rfl, rfl, rfl, rfl, rfl, rfl, rfl, ?_⟩
  rw [loads_recordBus]
  simp [contextAt, restored, wordsFrom]

namespace SwitchState

variable {s : SwitchState} {code : Word → Option Instr} {switch prev next : Word}

/-- The memory after the save side. -/
def savedMem (s : SwitchState) : Memory32 :=
  (((s.sys.mem.storeWords (s.core.sp .svc - 36#32) (calleeWords s.core.r (s.core.lr .svc))).store32
    (s.core.r 0 + ctxSpSvcOffset) (s.core.sp .svc - 36#32)).store32
    (s.core.r 0 + ctxSpUsrOffset) (s.core.sp .usr)).store32
    (s.core.r 0 + ctxLrUsrOffset) (s.core.lr .usr)

lemma saveContext_recordBus (s : SwitchState) :
    saveContext (recordBus code) s.core s.sys = some { s.sys with mem := s.savedMem } := by
  rw [saveContext, stores_recordBus]
  rfl

/-- The frame that the save side pushes. -/
def savedFrame (s : SwitchState) : Span := ⟨s.core.sp .svc - 36#32, 36⟩

/-- The call does not write to a span: either there is no previous process, or the span is
apart from what is saved for it. -/
def Spares (s : SwitchState) (prev : Word) (S : Span) : Prop :=
  prev = 0#32 ∨ S.Apart s.savedFrame ∧ S.Apart (ctxSpan prev)

/-- The memory from which the next process is loaded. -/
def switchMem (s : SwitchState) (prev : Word) : Memory32 :=
  if prev = 0#32 then s.sys.mem else s.savedMem

/-- The save side writes its frame and three words of `ctx`. -/
lemma savedMem_agree {S : Span} (hframe : S.Apart s.savedFrame)
    (hctx : S.Apart (ctxSpan (s.core.r 0))) : Memory32.Agree S s.sys.mem s.savedMem := by
  have hself : ∀ S : Span, S.Within S := fun S x hx => hx
  have h1 : Memory32.Within s.savedFrame s.sys.mem
      (s.sys.mem.storeWords (s.core.sp .svc - 36#32) (calleeWords s.core.r (s.core.lr .svc))) :=
    Memory32.storeWords_within s.sys.mem _ (calleeWords s.core.r (s.core.lr .svc))
      (by simp [calleeWords])
  refine (h1.agree hframe).trans ?_
  have h2 := fun (m : Memory32) (k : ℕ) (hk : k < 18) (w : Word) =>
    (Memory32.store32_within m (s.core.r 0 + BitVec.ofNat 32 (4 * k)) w).agree
      (hctx.mono (hself S) (ctx_within (s.core.r 0) hk))
  exact ((h2 _ 13 (by omega) _).trans (h2 _ 16 (by omega) _)).trans (h2 _ 17 (by omega) _)

lemma switchMem_agree (hr0 : s.core.r 0 = prev) {S : Span} (h : s.Spares prev S) :
    Memory32.Agree S s.sys.mem (s.switchMem prev) := by
  rw [switchMem]
  split_ifs with hprev
  · exact Memory32.Agree.refl S s.sys.mem
  · rcases h with h | ⟨hframe, hctx⟩
    · exact absurd h hprev
    · exact savedMem_agree hframe (by rwa [hr0])

/-- **A call of `context_switch`** ends with the registers of the next process. -/
lemma run_call (h : SwitchCall code switch prev next s)
    (hlr : (contextAt (s.switchMem prev) next).frame 8 &&& 3#32 = 0#32) :
    ∃ n core, run (recordBus code) n s =
        some ⟨core, restored { s.sys with mem := s.switchMem prev } next⟩ ∧
      SwitchedTo (contextAt (s.switchMem prev) next) core ∧ core.cpsr.getLsbD 5 = false := by
  have hidle : ∀ m, (recordBus code).idle m = m := fun _ => rfl
  have hsits : Sits (recordBus code) s.core.pc contextSwitchCode := h.pc ▸ h.sits
  have hloads := restores_recordBus code { s.sys with mem := s.switchMem prev } next
  rw [← h.r1] at hloads hlr ⊢
  by_cases hprev : prev = 0#32
  · have hmem : s.switchMem prev = s.sys.mem := if_pos hprev
    rw [hmem] at hloads hlr ⊢
    obtain ⟨core, hrun, hto, hkeeps⟩ := run_contextSwitch_null hidle hsits h.privileged h.arm
      (h.r0.trans hprev) hloads hlr
    exact ⟨17, core, hrun, hto, (hkeeps.bits 5 (by omega) (by omega)).trans h.arm⟩
  · have hsave : saveContext (recordBus code) s.core s.sys = _ := s.saveContext_recordBus
    have hmem : s.switchMem prev = s.savedMem := if_neg hprev
    rw [hmem] at hloads hlr ⊢
    obtain ⟨core, hrun, hto, hkeeps⟩ := run_contextSwitch hidle hsits (h.svc hprev) h.arm
      (by rwa [h.r0]) hsave hloads hlr
    exact ⟨23, core, hrun, hto, (hkeeps.bits 5 (by omega) (by omega)).trans h.arm⟩

/-- What the save side leaves in memory. -/
lemma load32_savedMem (h : (ctxSpan (s.core.r 0)).Apart s.savedFrame) :
    s.savedMem.load32 (s.core.r 0 + ctxSpSvcOffset) = s.core.sp .svc - 36#32 ∧
      s.savedMem.load32 (s.core.r 0 + ctxSpUsrOffset) = s.core.sp .usr ∧
      s.savedMem.load32 (s.core.r 0 + ctxLrUsrOffset) = s.core.lr .usr ∧
      ∀ i (hi : i < 9), s.savedMem.load32 (s.core.sp .svc - 36#32 + BitVec.ofNat 32 (4 * i)) =
        (calleeWords s.core.r (s.core.lr .svc)).get ⟨i, hi⟩ := by
  have hsvcUsr : Span.Apart ⟨s.core.r 0 + ctxSpSvcOffset, 4⟩ ⟨s.core.r 0 + ctxSpUsrOffset, 4⟩ :=
    Span.apart_add _ (k := 52) (l := 64) (by decide) (by decide) (by decide)
  have hsvcLr : Span.Apart ⟨s.core.r 0 + ctxSpSvcOffset, 4⟩ ⟨s.core.r 0 + ctxLrUsrOffset, 4⟩ :=
    Span.apart_add _ (k := 52) (l := 68) (by decide) (by decide) (by decide)
  have husrLr : Span.Apart ⟨s.core.r 0 + ctxSpUsrOffset, 4⟩ ⟨s.core.r 0 + ctxLrUsrOffset, 4⟩ :=
    Span.apart_add _ (k := 64) (l := 68) (by decide) (by decide) (by decide)
  refine ⟨?_, ?_, Memory32.load32_store32 _ _ _, ?_⟩
  · rw [savedMem, (Memory32.store32_within _ _ _).load32 hsvcLr,
      (Memory32.store32_within _ _ _).load32 hsvcUsr]
    exact Memory32.load32_store32 _ _ _
  · rw [savedMem, (Memory32.store32_within _ _ _).load32 husrLr]
    exact Memory32.load32_store32 _ _ _
  · intro i hi
    have hword : Span.Within ⟨s.core.sp .svc - 36#32 + BitVec.ofNat 32 (4 * i), 4⟩ s.savedFrame :=
      Span.within_add _ (by omega) (by omega)
    -- a word of the frame is apart from every word of `ctx`
    have hfar : ∀ (m : Memory32) (k : ℕ), k < 18 → ∀ w,
        (m.store32 (s.core.r 0 + BitVec.ofNat 32 (4 * k)) w).load32
          (s.core.sp .svc - 36#32 + BitVec.ofNat 32 (4 * i)) =
        m.load32 (s.core.sp .svc - 36#32 + BitVec.ofNat 32 (4 * i)) := fun m k hk w =>
      (Memory32.store32_within m _ w).load32 (h.symm.mono hword (ctx_within _ hk))
    have hwords := Memory32.load32_storeWords s.sys.mem (s.core.sp .svc - 36#32)
      (calleeWords s.core.r (s.core.lr .svc)) (by simp [calleeWords]) hi
    exact (hfar _ 17 (by omega) _).trans
      ((hfar _ 16 (by omega) _).trans ((hfar _ 13 (by omega) _).trans hwords))

end SwitchState

/-! ### First entry and resume -/

/-- A switch leaves alone what it spares. -/
lemma Untouched.switchMem {s : SwitchState} {prev p : Word} {frame : Span} {m : Memory32}
    (h : Untouched p frame m s.sys.mem) (hr0 : s.core.r 0 = prev)
    (hpcb : s.Spares prev (pcbSpan p)) (hframe : s.Spares prev frame) :
    Untouched p frame m (s.switchMem prev) := by
  have hagree := SwitchState.switchMem_agree hr0 hpcb
  exact ⟨h.ctx.trans (hagree.mono (ctxSpan_within p)),
    h.pgd.trans (hagree.mono (field_within p .pgdPa)),
    h.frame.trans (SwitchState.switchMem_agree hr0 hframe)⟩

/-- The process that has called `context_switch` in state `s` can be resumed from memory `m`:
a later switch to it, as long as nobody has touched its `ctx`, `pgd_pa` and frame, returns to
it with its registers. -/
def Resumable (code : Word → Option Instr) (switch prev : Word) (s : SwitchState)
    (m : Memory32) : Prop :=
  ∀ q (t : SwitchState), SwitchCall code switch q prev t →
    Untouched prev s.savedFrame m t.sys.mem →
    t.Spares q (pcbSpan prev) → t.Spares q s.savedFrame →
    ∃ n t', run (recordBus code) n t = some t' ∧ t'.core.pc = s.core.lr .svc ∧
      t'.core.cpsr &&& 0x1F#32 = 0x13#32 ∧
      (∀ i : Fin 13, 4 ≤ i.val → i.val < 12 → t'.core.r i = s.core.r i) ∧
      t'.core.lr .svc = s.core.lr .svc ∧ t'.core.sp .svc = s.core.sp .svc ∧
      t'.core.sp .usr = s.core.sp .usr ∧ t'.core.lr .usr = s.core.lr .usr ∧
      t'.sys.ttbr0 = s.sys.mem.load32 (prev + procPgdPaOffset) ||| 0x4A#32

section

variable {code : Word → Option Instr} {switch ret prev next : Word} {s : SwitchState}
  {m : Memory32}

/-- A process that has switched away can be resumed. -/
lemma resumable_savedMem (hcall : SwitchCall code switch prev next s)
    (hapart : (pcbSpan prev).Apart s.savedFrame) (hret : s.core.lr .svc &&& 3#32 = 0#32) :
    Resumable code switch prev s s.savedMem := by
  intro q t hcall' huntouched hpcb hframe
  have hr0 := hcall.r0
  have hsaved := s.load32_savedMem
    (by rw [hr0]; exact hapart.mono (ctxSpan_within prev) fun x hx => hx)
  rw [hr0] at hsaved
  obtain ⟨hspSvc, hspUsr, hlrUsr, hwords⟩ := hsaved
  have hfrom := huntouched.switchMem hcall'.r0 hpcb hframe
  have hsp : (t.switchMem q).load32 (prev + ctxSpSvcOffset) = s.core.sp .svc - 36#32 :=
    (hfrom.ctxWord (k := 13) (by omega)).trans hspSvc
  have hword : ∀ i (hi : i < 9), (contextAt (t.switchMem q) prev).frame i =
      (calleeWords s.core.r (s.core.lr .svc)).get ⟨i, hi⟩ := by
    intro i hi
    rw [← hwords i hi, contextAt, hsp]
    exact hfrom.frameWord (n := 9) (by decide) hi
  have hlr : (contextAt (t.switchMem q) prev).frame 8 = s.core.lr .svc := hword 8 (by omega)
  have hpgd : s.savedMem.load32 (prev + procPgdPaOffset) =
      s.sys.mem.load32 (prev + procPgdPaOffset) := by
    refine (Memory32.load32_congr (SwitchState.savedMem_agree ?_ ?_)).symm
    · exact hapart.mono (field_within prev .pgdPa) fun x hx => hx
    · rw [hr0]
      exact pgdPa_apart prev
  obtain ⟨n, core, hrun, hto, -⟩ :=
    SwitchState.run_call hcall' (by rw [hlr]; exact hret)
  refine ⟨n, _, hrun, hto.pc.trans hlr, hto.mode, ?_, hto.lrSvc.trans hlr, ?_, ?_, ?_, ?_⟩
  · intro i h4 h12
    have hi := (hto.callee ⟨i.val - 4, by omega⟩).trans (hword (i.val - 4) (by omega))
    fin_cases i <;> first | simp at h4; done | simp at h12; done | exact hi
  · rw [hto.spSvc, contextAt, hsp, BitVec.sub_add_cancel]
  · exact hto.spUsr.trans ((hfrom.ctxWord (k := 16) (by omega)).trans hspUsr)
  · exact hto.lrUsr.trans ((hfrom.ctxWord (k := 17) (by omega)).trans hlrUsr)
  · rw [restored, hfrom.pgdPa, hpgd]

/-- `ret_from_first_entry` pops its frame of 16 words. -/
lemma run_retFromFirstEntry (hret : Sits (recordBus code) s.core.pc retFromFirstEntryCode)
    (hmode : s.core.cpsr &&& 0x1F#32 = 0x13#32) (harm : s.core.cpsr.getLsbD 5 = false) :
    run (recordBus code) 2 s = some
      ⟨{ s.core with
          r := fun i => s.sys.mem.load32 (s.core.sp .svc + BitVec.ofNat 32 (4 * i))
          sp := Function.update s.core.sp .svc (s.core.sp .svc + 64#32)
          lr := Function.update s.core.lr .svc (s.sys.mem.load32 (s.core.sp .svc + 52#32))
          pc := s.sys.mem.load32 (s.core.sp .svc + 56#32)
          cpsr := s.sys.mem.load32 (s.core.sp .svc + 60#32) },
        { s.sys with reads := s.sys.reads ++ wordsFrom (s.core.sp .svc) 16 }⟩ := by
  have hregs : (recordBus code).loads s.sys true (s.core.sp .svc) 14 = _ :=
    loads_recordBus s.sys true
  rw [wordsFrom, List.map_map] at hregs
  have hexec := execAll_retFromFirstEntry (fun _ => rfl) hmode harm hregs rfl rfl
  refine run_of_sits hret (by simp [retFromFirstEntryCode, Instr.straight]) (hexec.trans ?_)
  simp [wordsFrom, List.range, List.range.loop]

/-- **The first entry of a process is a resume.**  Let `process_build_initial_frame` have built
the frame of a process, for any stack of at least 100 bytes and any entry, and `context_switch`
be called to switch to it, in any state in which its `ctx`, `pgd_pa` and frame are as the builder
has left them.  Then, whether there is a previous process or not, the CPU ends in USR mode at the
entry, with cleared registers, empty stacks and the page table of the process; and of memory it
has read the four words of the PCB and the 25 words of the frame.  A previous process, which is to
be returned to at an instruction, can be resumed later, and nothing but its frame and its `ctx` has
been written. -/
theorem first_entry_equals_resume (hcall : SwitchCall code switch prev next s)
    (hret : Sits (recordBus code) ret retFromFirstEntryCode)
    (hsize : 100 ≤ (m.load32 (next + ProcField.kstackSize.offset)).toNat)
    (hnext : (pcbSpan next).Apart (stackSpan m next))
    (huntouched : Untouched next ⟨framePtr m next, 4 * initStackWords⟩
      (processBuildInitialFrame ret m next) s.sys.mem)
    (hpcb : s.Spares prev (pcbSpan next)) (hstack : s.Spares prev (stackSpan m next))
    (hprev : prev ≠ 0#32 → (pcbSpan prev).Apart s.savedFrame)
    (hlink : prev ≠ 0#32 → s.core.lr .svc &&& 3#32 = 0#32) :
    ∃ n s', run (recordBus code) n s = some s' ∧
      s'.core.pc = m.load32 (next + ProcField.userEntry.offset) ∧ s'.core.cpsr = 0x10#32 ∧
      (∀ i, s'.core.r i = 0#32) ∧ s'.core.sp .usr = userStackTop ∧ s'.core.lr .usr = 0#32 ∧
      s'.core.sp .svc = m.load32 (next + ProcField.kstackBase.offset) +
        m.load32 (next + ProcField.kstackSize.offset) ∧
      s'.sys.ttbr0 = m.load32 (next + ProcField.pgdPa.offset) ||| 0x4A#32 ∧
      s'.sys.reads = s.sys.reads ++ [next + procPgdPaOffset, next + ctxSpUsrOffset,
        next + ctxLrUsrOffset, next + ctxSpSvcOffset] ++ wordsFrom (framePtr m next) 25 ∧
      (prev ≠ 0#32 → Resumable code switch prev s s'.sys.mem) ∧
      ∀ S, s.Spares prev S → Memory32.Agree S s.sys.mem s'.sys.mem := by
  have hframe : s.Spares prev ⟨framePtr m next, 4 * initStackWords⟩ := by
    refine hstack.imp_right ?_
    rintro ⟨h1, h2⟩
    exact ⟨h1.mono (frame_within hsize) fun x hx => hx, h2.mono (frame_within hsize) fun x hx => hx⟩
  have hbuilt := (frameBuilt_processBuildInitialFrame ret hsize hnext).congr
    (huntouched.switchMem hcall.r0 hpcb hframe)
  have hword : ∀ i (hi : i < 25), (contextAt (s.switchMem prev) next).frame i =
      (frameWords ret (m.load32 (next + ProcField.userEntry.offset))).get ⟨i, hi⟩ := by
    intro i hi
    rw [← hbuilt.frame i hi, contextAt, hbuilt.spSvc]
  -- `context_switch` ends in `ret_from_first_entry`, behind the first nine words
  have hlr : (contextAt (s.switchMem prev) next).frame 8 = ret := hword 8 (by omega)
  obtain ⟨n, core, hrun, hto, harm⟩ :=
    SwitchState.run_call hcall (by rw [hlr]; exact aligned_of_sits hret)
  have hspSvc : core.sp .svc = framePtr m next + 36#32 := by
    rw [hto.spSvc, contextAt, hbuilt.spSvc]
  have hrun' := run_retFromFirstEntry
    (s := ⟨core, restored { s.sys with mem := s.switchMem prev } next⟩)
    (by rw [hto.pc, hlr]; exact hret) hto.mode harm
  have hword' : ∀ i (hi : i < 16),
      (s.switchMem prev).load32 (core.sp .svc + BitVec.ofNat 32 (4 * i)) =
        (frameWords ret (m.load32 (next + ProcField.userEntry.offset))).get
          ⟨9 + i, Nat.add_lt_add_left hi 9⟩ := by
    intro i hi
    have haddr : core.sp .svc + BitVec.ofNat 32 (4 * i) =
        framePtr m next + BitVec.ofNat 32 (4 * (9 + i)) := by
      rw [hspSvc, BitVec.add_assoc, ← BitVec.ofNat_add, Nat.mul_add]
    rw [haddr]
    exact hbuilt.frame (9 + i) (by omega)
  have hboth : run (recordBus code) (n + 2) s = run (recordBus code) 2
      ⟨core, restored { s.sys with mem := s.switchMem prev } next⟩ := by
    rw [run_add, hrun, Option.bind_some]
  refine ⟨n + 2, _, hboth.trans hrun', ?_, ?_, ?_, ?_, ?_, ?_, ?_, ?_, ?_, ?_⟩
  · exact hword' 14 (by omega)
  · exact hword' 15 (by omega)
  · intro i
    refine (hword' i.val (by omega)).trans ?_
    fin_cases i <;> rfl
  · exact hto.spUsr.trans hbuilt.spUsr
  · exact hto.lrUsr.trans hbuilt.lrUsr
  · show Function.update core.sp .svc (core.sp .svc + 64#32) .svc = stackTop m next
    rw [Function.update_self, hspSvc, framePtr, BitVec.add_assoc]
    exact BitVec.sub_add_cancel _ _
  · exact congrArg (· ||| 0x4A#32) hbuilt.pgdPa
  · show (restored _ next).reads ++ wordsFrom (core.sp .svc) 16 = _
    rw [restored, hbuilt.spSvc, hspSvc, List.append_assoc]
    exact congrArg _ (wordsFrom_add (framePtr m next) 9 16).symm
  · intro h
    have hmem : s.switchMem prev = s.savedMem := if_neg h
    show Resumable code switch prev s (s.switchMem prev)
    rw [hmem]
    exact resumable_savedMem hcall (hprev h) (hlink h)
  · exact fun S hS => SwitchState.switchMem_agree hcall.r0 hS

end

/-- The two routines, one behind the other. -/
def sampleCode (a : Word) : Option Instr :=
  (contextSwitchCode ++ retFromFirstEntryCode)[(a - 0x1000#32).toNat / 4]?

/-- A PCB at `0x2000` whose kernel stack is the 8 KB from `0x4000` on: its `pgd_pa`,
`kstack_base`, `kstack_size` and `user_entry`. -/
def sampleMemory : Memory32 :=
  Memory32.storeWords (fun _ => 0#8) (0x2000#32 + ProcField.pgdPa.offset)
    [0x10000#32, 0x4000#32, 0x2000#32, userVirtBase]

/-- A process with its PCB at `0x3000`, on its kernel stack below `0x8000`, switches to it. -/
def sampleCall : SwitchState where
  core := {
    r := fun i => if i = 0 then 0x3000#32 else if i = 1 then 0x2000#32 else 0x55#32
    sp := fun k => if k = .svc then 0x8000#32 else 0#32
    lr := fun _ => 0#32
    spsr := fun _ => 0#32
    pc := 0x1000#32
    cpsr := svcMode }
  sys := ⟨processBuildInitialFrame 0x105C#32 sampleMemory 0x2000#32, 0#32, []⟩

/-- The first entry of a process after another one. -/
theorem first_entry_equals_resume_sample :
    ∃ n s', run (recordBus sampleCode) n sampleCall = some s' ∧ s'.core.pc = userVirtBase ∧
      s'.core.cpsr = 0x10#32 ∧ s'.core.sp .svc = 0x6000#32 := by
  have hstack : stackSpan sampleMemory 0x2000#32 = ⟨0x4000#32, 8192⟩ := by
    have hbase : sampleMemory.load32 (0x2000#32 + ProcField.kstackBase.offset) = 0x4000#32 := by
      decide
    have hsize : sampleMemory.load32 (0x2000#32 + ProcField.kstackSize.offset) = 0x2000#32 := by
      decide
    rw [stackSpan, hbase, hsize]
    rfl
  have hcall : SwitchCall sampleCode 0x1000#32 0x3000#32 0x2000#32 sampleCall := by
    refine ⟨?_, rfl, rfl, rfl, by decide, by decide, fun _ => by decide⟩
    repeat' first | exact fun _ => rfl | constructor
  have hret : Sits (recordBus sampleCode) 0x105C#32 retFromFirstEntryCode := by
    repeat' first | exact fun _ => rfl | constructor
  have hnext : (pcbSpan 0x2000#32).Apart (stackSpan sampleMemory 0x2000#32) := by
    rw [hstack]
    exact Span.apart_of_le (by decide) (by decide)
  have hspares : sampleCall.Spares 0x3000#32 (pcbSpan 0x2000#32) :=
    Or.inr ⟨Span.apart_of_le (by decide) (by decide), Span.apart_of_le (by decide) (by decide)⟩
  have hspares' : sampleCall.Spares 0x3000#32 (stackSpan sampleMemory 0x2000#32) := by
    rw [hstack]
    exact Or.inr ⟨Span.apart_of_le (by decide) (by decide),
      (Span.apart_of_le (by decide) (by decide)).symm⟩
  obtain ⟨n, s', hrun, hpc, hcpsr, -, -, -, hspSvc, -⟩ :=
    first_entry_equals_resume hcall hret (by decide) hnext
      ⟨Memory32.Agree.refl _ _, Memory32.Agree.refl _ _, Memory32.Agree.refl _ _⟩ hspares hspares'
      (fun _ => Span.apart_of_le (by decide) (by decide)) fun _ => by decide
  exact ⟨n, s', hrun, hpc.trans (by decide), hcpsr, hspSvc.trans (by decide)⟩

end RingNova
