/-
# The listing of `sys_ps`

The text that `sys_ps` is meant to produce, one line for each process, and that its nested
loops, with a test of the bound at every place where a byte is stored, store exactly the first
`size - 1` bytes of it (`sysPsBytes_eq`).

The argument is the same at every place: what has been stored is the beginning of the text, and
a test fails only if it is complete up to the bound (`take_full`).
-/
import Mathlib.Data.List.DropRight
import RingNova.Kernel.Window

namespace RingNova

/-! ### The text -/

/-- The words for the states. -/
def stateWord : TaskState → List Byte
  | .ready => cstr "READY"
  | .running => cstr "RUNNING"
  | .blocked => cstr "BLOCKED"
  | .dead => cstr "DEAD"

/-- `<pid> <name> <state padded to 7>`. -/
def psBody (pid : ℕ) (name : List Byte) (st : TaskState) : List Byte :=
  cstr (toString pid) ++ cstr " " ++ name ++ cstr " " ++ (stateWord st).rightpad 7 0x20#8

/-- A line of the listing. -/
def psLine (pid : ℕ) (name : List Byte) (st : TaskState) : List Byte :=
  psBody pid name st ++ cstr "\n"

/-- The whole listing, in the order of the pids. -/
def psListing (k : Kernel numProcesses) : List Byte :=
  (List.finRange numProcesses).flatMap fun p : Pid => psLine p.val (k.processes p).name (k.st p)

/-! ### One entry -/

/-- What one iteration of `sys_ps` stores if there is room. -/
def psEntryText (p : Pcb) : List Byte :=
  [0x30#8 + p.pid.setWidth 8] ++ [0x20#8] ++ p.name ++ [0x20#8] ++ stateName p.state ++ [0x0A#8]

section

variable {size : ℕ} {out s rest : List Byte}

/-- A full buffer holds the beginning of every longer text. -/
lemma take_full (h : out.length = size - 1) : (out ++ rest).take (size - 1) = out := by
  rw [← h, List.take_left]

/-- The inner loops store as much of a string as there is room for. -/
lemma psCopy_eq (h : out.length + 1 ≤ size) : psCopy size s out = (out ++ s).take (size - 1) := by
  induction s generalizing out with
  | nil => rw [psCopy, List.append_nil, List.take_of_length_le (by omega)]
  | cons c s ih =>
    rw [psCopy]
    split
    next hlt =>
      rw [ih (by rw [List.length_append]; exact hlt), List.append_assoc]
      rfl
    next hge => rw [take_full (by omega)]

/-- After an inner loop, the bound is reached or the string is complete. -/
lemma psCopy_cases (h : out.length + 1 ≤ size) (s rest : List Byte) :
    (size ≤ (psCopy size s out).length + 1 ∧
        psCopy size s out = (out ++ s ++ rest).take (size - 1)) ∨
      ((psCopy size s out).length + 1 < size ∧ psCopy size s out = out ++ s) := by
  rw [psCopy_eq h, List.length_take]
  by_cases hlen : (out ++ s).length + 1 < size
  · right
    refine ⟨by omega, List.take_of_length_le (by omega)⟩
  · left
    refine ⟨by omega, ?_⟩
    exact (List.take_append_of_le_length (by omega)).symm

/-- **One iteration of `sys_ps`** stores the beginning of its line, and goes on exactly if the
line was complete. -/
lemma psEntry_cases (p : Pcb) (h : out.length + 1 ≤ size) (rest : List Byte) :
    psEntry size p out = ((out ++ psEntryText p ++ rest).take (size - 1), false) ∨
      psEntry size p out = (out ++ psEntryText p, true) ∧
        (out ++ psEntryText p).length + 1 ≤ size := by
  have hassoc : ∀ t : List Byte, out ++ psEntryText p ++ t = out ++ [0x30#8 + p.pid.setWidth 8] ++
      ([0x20#8] ++ p.name ++ [0x20#8] ++ stateName p.state ++ [0x0A#8] ++ t) := by
    intro t
    simp only [psEntryText, List.append_assoc]
  rw [psEntry]
  split
  next hfull =>
    left
    rw [List.append_assoc, take_full (by omega)]
  next h0 =>
    dsimp only
    have hlen1 : (out ++ [0x30#8 + p.pid.setWidth 8]).length = out.length + 1 := by simp
    split
    next hfull =>
      left
      rw [hassoc, take_full (by omega)]
    next h1 =>
      have hlen2 : (out ++ [0x30#8 + p.pid.setWidth 8] ++ [0x20#8]).length + 1 ≤ size := by
        rw [List.length_append]
        simp only [List.length_singleton]
        omega
      rcases psCopy_cases hlen2 p.name ([0x20#8] ++ stateName p.state ++ [0x0A#8] ++ rest) with
        ⟨hge, heq⟩ | ⟨hlt, heq⟩
      · -- the name is cut
        left
        rw [if_pos hge, heq]
        simp only [psEntryText, List.append_assoc]
      · rw [if_neg (by omega)]
        have hlen3 : (psCopy size p.name (out ++ [0x30#8 + p.pid.setWidth 8] ++ [0x20#8]) ++
            [0x20#8]).length + 1 ≤ size := by
          rw [List.length_append]
          simp only [List.length_singleton]
          omega
        rcases psCopy_cases hlen3 (stateName p.state) ([0x0A#8] ++ rest) with
          ⟨hge, heq'⟩ | ⟨hlt', heq'⟩
        · -- the state is cut
          left
          rw [if_pos hge, heq', heq]
          simp only [psEntryText, List.append_assoc]
        · right
          rw [if_neg (by omega), heq', heq]
          refine ⟨by simp only [psEntryText, List.append_assoc], ?_⟩
          rw [heq', heq] at hlt'
          simp only [psEntryText, List.length_append, List.length_singleton] at hlt' ⊢
          omega

/-- The outer loop. -/
lemma psLoop_eq (ps : List Pcb) (h : out.length + 1 ≤ size) :
    psLoop size ps out = (out ++ ps.flatMap psEntryText).take (size - 1) := by
  induction ps generalizing out with
  | nil => rw [psLoop, List.flatMap_nil, List.append_nil, List.take_of_length_le (by omega)]
  | cons p ps ih =>
    rw [psLoop, List.flatMap_cons, ← List.append_assoc]
    rcases psEntry_cases p h (ps.flatMap psEntryText) with heq | ⟨heq, hlen⟩
    · rw [heq]
    · rw [heq]
      exact ih hlen

end

/-! ### The whole listing -/

lemma stateName_eq (st : TaskState) : stateName st = (stateWord st).rightpad 7 0x20#8 := by
  cases st <;> decide

/-- A pid is one digit. -/
lemma pidDigit (p : Pid) : [0x30#8 + (BitVec.ofNat 32 p).setWidth 8] = cstr (toString (p : ℕ)) := by
  revert p
  decide

lemma psEntryText_eq {k : Kernel numProcesses} {p : Pid}
    (hpid : (k.processes p).pid = BitVec.ofNat 32 p) :
    psEntryText (k.processes p) = psLine p.val (k.processes p).name (k.st p) := by
  have hspace : cstr " " = [0x20#8] := by decide
  have hnewline : cstr "\n" = [0x0A#8] := by decide
  rw [psEntryText, psLine, psBody, hpid, pidDigit, hspace, hnewline, stateName_eq]
  rfl

/-- **The bytes that `sys_ps` stores** are the first `size - 1` of the listing. -/
theorem sysPsBytes_eq {k : Kernel numProcesses}
    (hpid : ∀ p, (k.processes p).pid = BitVec.ofNat 32 p) (size : Word) :
    k.sysPsBytes size = (psListing k).take (size.toNat - 1) := by
  have hlisting :
      psListing k = ((List.finRange numProcesses).map k.processes).flatMap psEntryText := by
    rw [List.flatMap_map]
    exact List.flatMap_congr fun p _ => (psEntryText_eq (hpid p)).symm
  rw [Kernel.sysPsBytes, hlisting]
  rcases Nat.eq_zero_or_pos size.toNat with h0 | hpos
  · rw [h0]
    rfl
  · exact psLoop_eq _ hpos

/-! ### Reading the listing -/

/-- The state that a listing reports on a line: its last seven characters. -/
def reportedState (out : List Byte) (line : ℕ) : List Byte :=
  ((out.splitOnP (· == 0x0A#8)).getD line []).rtake 7

/-- A text of lines is taken apart at their ends. -/
lemma splitOnP_lines {α : Type} (l : List α) (body : α → List Byte)
    (h : ∀ x ∈ l, 0x0A#8 ∉ body x) :
    (l.flatMap fun x => body x ++ [0x0A#8]).splitOnP (· == 0x0A#8) = l.map body ++ [[]] := by
  induction l with
  | nil => rfl
  | cons x l ih =>
    rw [List.forall_mem_cons] at h
    have hbody : ∀ c ∈ body x, (c == 0x0A#8) = false := by
      intro c hc
      rw [beq_eq_false_iff_ne]
      rintro rfl
      exact h.1 hc
    rw [List.flatMap_cons, List.append_assoc, List.singleton_append,
      List.splitOnP_append_cons_of_forall_mem hbody _ (by simp), ih h.2]
    rfl

lemma rtake_psBody (pid : ℕ) (name : List Byte) (st : TaskState) :
    (psBody pid name st).rtake 7 = (stateWord st).rightpad 7 0x20#8 := by
  have hlen : ((stateWord st).rightpad 7 0x20#8).length = 7 := by
    cases st <;> decide
  rw [psBody, List.rtake, List.length_append, hlen, Nat.add_sub_cancel, List.drop_left]

lemma not_mem_psBody {pid : Pid} {name : List Byte} (st : TaskState) (hname : 0x0A#8 ∉ name) :
    0x0A#8 ∉ psBody pid.val name st := by
  have hpid : 0x0A#8 ∉ cstr (toString pid.val) := by
    revert pid
    decide
  have hspace : 0x0A#8 ∉ cstr " " := by decide
  have hst : 0x0A#8 ∉ (stateWord st).rightpad 7 0x20#8 := by
    cases st <;> decide
  simp only [psBody, List.mem_append, not_or]
  exact ⟨⟨⟨⟨hpid, hspace⟩, hname⟩, hspace⟩, hst⟩

/-- **The listing reports the states.** -/
lemma reportedState_psListing {k : Kernel numProcesses}
    (hnames : ∀ p, 0x0A#8 ∉ (k.processes p).name) (p : Pid) :
    reportedState (psListing k) p = (stateWord (k.st p)).rightpad 7 0x20#8 := by
  have hnewline : cstr "\n" = [0x0A#8] := by decide
  have hlisting : psListing k = (List.finRange numProcesses).flatMap fun p : Pid =>
      psBody p.val (k.processes p).name (k.st p) ++ [0x0A#8] := by
    simp only [psListing, psLine, hnewline]
  have hp : (p : ℕ) < ((List.finRange numProcesses).map fun p : Pid =>
      psBody p.val (k.processes p).name (k.st p)).length := by
    rw [List.length_map, List.length_finRange]
    exact p.isLt
  rw [reportedState, hlisting, splitOnP_lines _ _ fun p _ => not_mem_psBody _ (hnames p),
    List.getD_eq_getElem?_getD, List.getElem?_append_left hp, List.getElem?_eq_getElem hp,
    List.getElem_map, List.getElem_finRange, Option.getD_some, rtake_psBody]
  rfl

lemma stateWord_eq_running {st : TaskState} :
    (stateWord st).rightpad 7 0x20#8 = cstr "RUNNING" ↔ st = .running := by
  cases st <;> decide

end RingNova
