/-
# The shell

`dispatch` and the commands of `user/apps/shell/shell.c`.  A command is a program that makes
syscalls and goes on with their results (`Prog`); `Prog.run` answers them from the kernel's
side.

`kill` passes the value of the leading digits of its argument, modulo `2 ^ 32`, to the kernel.
So it kills only what was named if the argument is a numeral that fits in 32 bits, and
otherwise only by luck (`kills_named_iff`).
-/
import RingNova.Kernel.Process
import RingNova.User.Ulib

namespace RingNova

/-! ### Programs -/

/-- A user program as far as the kernel sees it: its next syscall, and how it goes on. -/
inductive Prog
  | ret
  /-- `sys_write(1, ..)` of these bytes. -/
  | write (bs : List Byte) (next : Prog)
  /-- `sys_ps`; the program goes on with the bytes in its buffer. -/
  | ps (size : Word) (next : List Byte → Prog)
  /-- `sys_kill`, with the argument in `r0`; the program goes on with the result in `r0`. -/
  | kill (pid : Word) (next : Word → Prog)
  /-- An access that the MMU refuses. -/
  | fault

/-- The globals after a program, and what it has written. -/
def Prog.run {N : ℕ} (k : Kernel N) : Prog → Kernel N × List Byte
  | .ret => (k, [])
  | .write bs next => ((next.run k).1, bs ++ (next.run k).2)
  | .ps size next => (next (k.sysPsBytes size)).run k
  | .kill pid next => (next (k.sysKill pid).2).run (k.sysKill pid).1
  | .fault => (k, [])

/-- `ulib_puts`. -/
def ulibPuts (s : List Byte) (next : Prog) : Option Prog :=
  (ulibStrlen s).map fun n => .write (s.take n.toNat) next

/-! ### Commands -/

/-- A blank. -/
def isBlank (c : Byte) : Bool := c = 0x20#8 || c = 0x09#8

/-- `skip_spaces`. -/
def skipSpaces : List Byte → Option (List Byte)
  | [] => none
  | c :: s => if isBlank c then skipSpaces s else some (c :: s)

/-- `match_word`: `some none` is the null pointer. -/
def matchWord (s word : List Byte) : Option (Option (List Byte)) := do
  let n ← ulibStrlen word
  let d ← ulibStrncmp s word n
  if d ≠ 0 then return none
  let c ← (s.drop n.toNat).head?
  if c ≠ 0#8 ∧ c ≠ 0x20#8 ∧ c ≠ 0x09#8 then return none
  let rest ← skipSpaces (s.drop n.toNat)
  return some rest

/-- The list of commands that `cmd_help` prints. -/
def helpText : String :=
  "commands:\n" ++
    "  help         — this list\n" ++
    "  ps           — list processes\n" ++
    "  kill <pid>   — kill a process\n" ++
    "  echo <text>  — print text\n" ++
    "  clear        — clear the screen\n" ++
    "  crash        — dereference NULL (demo)\n"

/-- `cmd_help`. -/
def cmdHelp : Option Prog := ulibPuts (literal helpText) .ret

/-- `cmd_ps`. -/
def cmdPs : Option Prog :=
  some (.ps 256#32 fun bs => if 0 < bs.length then .write bs .ret else .ret)

/-- `cmd_kill`. -/
def cmdKill (arg : List Byte) : Option Prog := do
  let c ← arg.head?
  if c = 0#8 then ulibPuts (literal "usage: kill <pid>\n") .ret
  else
    let pid ← ulibAtoi arg
    let badPid ← ulibPuts (literal "kill: bad pid\n") .ret
    return .kill pid fun rc => if rc ≠ 0#32 then badPid else .ret

/-- `cmd_echo`. -/
def cmdEcho (arg : List Byte) : Option Prog := ulibPuts arg (.write [0x0A#8] .ret)

/-- `cmd_clear`. -/
def cmdClear : Option Prog := ulibPuts (literal "\x1b[2J\x1b[H") .ret

/-- `cmd_crash`. -/
def cmdCrash : Option Prog :=
  ulibPuts (literal "crash: about to NULL-deref — kernel should survive\n") .fault

/-- What `dispatch` does with a line. -/
inductive Command
  | nothing
  | help
  | ps
  | kill (rest : List Byte)
  | echo (rest : List Byte)
  | clear
  | crash
  | unknown
deriving DecidableEq

/-- The call that `dispatch` makes. -/
def Command.prog : Command → Option Prog
  | nothing => some .ret
  | help => cmdHelp
  | ps => cmdPs
  | kill rest => cmdKill rest
  | echo rest => cmdEcho rest
  | clear => cmdClear
  | crash => cmdCrash
  | unknown => ulibPuts (literal "unknown command — try 'help'\n") .ret

/-- The tests of `dispatch`, in order. -/
def commands : List (List Byte × (List Byte → Command)) :=
  [(literal "help", fun _ => .help), (literal "ps", fun _ => .ps), (literal "kill", .kill),
    (literal "echo", .echo), (literal "clear", fun _ => .clear), (literal "crash", fun _ => .crash)]

/-- The first test that succeeds. -/
def firstMatch (p : List Byte) : List (List Byte × (List Byte → Command)) → Option Command
  | [] => some .unknown
  | (word, cmd) :: table =>
    match matchWord p word with
    | none => none
    | some (some rest) => some (cmd rest)
    | some none => firstMatch p table

/-- The command that `dispatch` calls. -/
def dispatchCommand (line : List Byte) : Option Command := do
  let p ← skipSpaces line
  let c ← p.head?
  if c = 0#8 then return .nothing
  firstMatch p commands

/-- `dispatch`. -/
def dispatch (line : List Byte) : Option Prog := (dispatchCommand line).bind Command.prog

/-! ### Words and arguments -/

/-- `skip_spaces` drops the leading blanks of the text. -/
lemma skipSpaces_eq {text s : List Byte} (h : CString text s) :
    ∃ s', skipSpaces s = some s' ∧ CString (text.dropWhile isBlank) s' := by
  induction text generalizing s with
  | nil =>
    obtain ⟨hmem, junk, rfl⟩ := h
    exact ⟨_, rfl, hmem, junk, rfl⟩
  | cons c text ih =>
    obtain ⟨-, s', rfl, hs'⟩ := h.cons
    rw [skipSpaces]
    by_cases hc : isBlank c = true
    · rw [if_pos hc, List.dropWhile_cons_of_pos hc]
      exact ih hs'
    · rw [if_neg hc, List.dropWhile_cons_of_neg hc]
      exact ⟨_, rfl, h⟩

/-- The argument that `match_word` finds is the text behind the word, without leading
blanks. -/
lemma matchWord_rest {text s word w rest : List Byte} (h : CString text s) (hw : CString word w)
    (hlen : word.length < 2 ^ 32) (hm : matchWord s w = some (some rest)) :
    CString ((text.drop word.length).dropWhile isBlank) rest := by
  obtain ⟨d, hd, hiff⟩ := ulibStrncmp_eq h hw hlen
  have hn : (BitVec.ofNat 32 word.length).toNat = word.length := by
    rw [BitVec.toNat_ofNat, Nat.mod_eq_of_lt hlen]
  simp only [matchWord, ulibStrlen_eq hw, hd, hn, Option.bind_eq_bind, Option.bind_some] at hm
  split at hm
  · exact absurd hm (by simp)
  next hd0 =>
    -- the word is a prefix, so the rest of the string begins behind it
    have hpre : word <+: text := hiff.1 (not_not.1 hd0)
    have hdrop := h.drop hpre.length_le
    obtain ⟨s', hs', htext⟩ := skipSpaces_eq hdrop
    rw [Option.bind_eq_some_iff] at hm
    obtain ⟨c, -, hm⟩ := hm
    split at hm
    · exact absurd hm (by simp)
    · rw [hs'] at hm
      obtain rfl : s' = rest := by simpa using hm
      exact htext

/-- A command other than the last resort comes from a test that has succeeded. -/
lemma firstMatch_some {p : List Byte} {table : List (List Byte × (List Byte → Command))}
    {cmd : Command} (h : firstMatch p table = some cmd) :
    cmd = .unknown ∨
      ∃ entry ∈ table, ∃ rest, matchWord p entry.1 = some (some rest) ∧ cmd = entry.2 rest := by
  induction table with
  | nil => exact Or.inl (Option.some.inj h).symm
  | cons entry table ih =>
    rw [firstMatch] at h
    split at h
    · exact absurd h (by simp)
    next rest hm =>
      exact Or.inr ⟨entry, List.mem_cons_self, rest, hm, (Option.some.inj h).symm⟩
    next =>
      rcases ih h with hu | ⟨entry', hmem, hrest⟩
      · exact Or.inl hu
      · exact Or.inr ⟨entry', List.mem_cons_of_mem _ hmem, hrest⟩

/-- If `dispatch` runs `kill`, it passes on a string. -/
lemma dispatchCommand_kill {text line arg : List Byte} (h : CString text line)
    (hd : dispatchCommand line = some (.kill arg)) : ∃ a, CString a arg := by
  obtain ⟨p, hp, htext⟩ := skipSpaces_eq h
  simp only [dispatchCommand, hp, Option.bind_eq_bind, Option.bind_some] at hd
  rw [Option.bind_eq_some_iff] at hd
  obtain ⟨c, -, hd⟩ := hd
  split at hd
  · exact absurd hd (by simp)
  · rcases firstMatch_some hd with hu | ⟨entry, hmem, rest, hm, heq⟩
    · exact absurd hu (by simp)
    · simp only [commands, List.mem_cons, List.not_mem_nil, or_false] at hmem
      rcases hmem with rfl | rfl | rfl | rfl | rfl | rfl <;> dsimp only at hm heq
      · exact absurd heq (by simp)
      · exact absurd heq (by simp)
      · have hkill : CString (cstr "kill") (literal "kill") := cString_literal _ (by decide)
        obtain rfl : arg = rest := Command.kill.inj heq
        exact ⟨_, matchWord_rest htext hkill (by decide) hm⟩
      all_goals exact absurd heq (by simp)

/-! ### Killing what was named -/

/-- The text is a decimal numeral with this value, up to trailing blanks. -/
def Numeral (a : List Byte) (n : ℕ) : Prop :=
  ∃ ds bl, a = ds ++ bl ∧ ds ≠ [] ∧ (∀ c ∈ ds, isDigit c = true) ∧ (∀ c ∈ bl, isBlank c = true) ∧
    decValue ds = n

/-- The shell has killed only what was named: a process's state has changed only if its number
was the argument; and if no process was named, no state has changed and the pid has been
reported as bad. -/
structure KillsNamed (a : List Byte) (k k' : Kernel numProcesses) (out : List Byte) : Prop where
  named : ∀ p : Pid, k'.st p ≠ k.st p → Numeral a p
  other : (∀ p : Pid, ¬ Numeral a p) → (∀ p, k'.st p = k.st p) ∧ out = cstr "kill: bad pid\n"

lemma takeWhile_isDigit_of_blank {bl : List Byte} (h : ∀ c ∈ bl, isBlank c = true) :
    bl.takeWhile isDigit = [] := by
  cases bl with
  | nil => rfl
  | cons c bl =>
    have hc : isDigit c = false := by
      have hb := h c List.mem_cons_self
      rw [isBlank, Bool.or_eq_true, decide_eq_true_iff, decide_eq_true_iff] at hb
      rcases hb with rfl | rfl <;> rfl
    rw [List.takeWhile_cons_of_neg (by simp [hc])]

/-- The value of a numeral is that of its leading digits. -/
lemma Numeral.value {a : List Byte} {n : ℕ} (h : Numeral a n) :
    decValue (a.takeWhile isDigit) = n := by
  obtain ⟨ds, bl, rfl, -, hds, hbl, rfl⟩ := h
  rw [List.takeWhile_append_of_pos hds, takeWhile_isDigit_of_blank hbl, List.append_nil]

/-- A literal is written as it is. -/
lemma ulibPuts_literal (str : String) (hmem : 0#8 ∉ cstr str) (hlen : (cstr str).length < 2 ^ 32)
    (next : Prog) : ulibPuts (literal str) next = some (.write (cstr str) next) := by
  have hn : (BitVec.ofNat 32 (cstr str).length).toNat = (cstr str).length := by
    rw [BitVec.toNat_ofNat, Nat.mod_eq_of_lt hlen]
  rw [ulibPuts, ulibStrlen_eq (cString_literal str hmem), Option.map_some, hn, literal,
    List.take_left]

/-- The call of `sys_kill` in `cmd_kill`, and what follows it. -/
def killProg (pid : Word) : Prog :=
  .kill pid fun rc => if rc ≠ 0#32 then .write (cstr "kill: bad pid\n") .ret else .ret

/-- What `cmd_kill` does with an argument. -/
lemma cmdKill_eq {a arg : List Byte} (h : CString a arg) (ha : a ≠ []) :
    cmdKill arg = some (killProg (BitVec.ofNat 32 (decValue (a.takeWhile isDigit)))) := by
  obtain ⟨c, text, rfl⟩ := List.exists_cons_of_ne_nil ha
  obtain ⟨hc, s', rfl, -⟩ := h.cons
  have hputs := ulibPuts_literal "kill: bad pid\n" (by decide) (by decide) .ret
  simp only [cmdKill, List.head?_cons, Option.bind_eq_bind, Option.bind_some, if_neg hc,
    ulibAtoi_eq h, hputs]
  rfl

/-- And without one. -/
lemma cmdKill_nil {arg : List Byte} (h : CString [] arg) :
    cmdKill arg = some (.write (cstr "usage: kill <pid>\n") .ret) := by
  simp only [cmdKill, h.nil, Option.bind_eq_bind, Option.bind_some, if_true]
  exact ulibPuts_literal _ (by decide) (by decide) .ret

/-- A number that is no process's is reported, and nothing happens. -/
lemma killProg_bad {k : Kernel numProcesses} {pid : Word} (h : numProcesses ≤ pid.toNat) :
    (killProg pid).run k = (k, cstr "kill: bad pid\n") := by
  have hrc : eBadcall ≠ 0#32 := by decide
  rw [killProg, Prog.run, Kernel.sysKill_of_le h, if_pos hrc]
  simp [Prog.run]

/-- The number of a process is passed on without a word. -/
lemma killProg_good {k : Kernel numProcesses} {pid : Word} (h : pid.toNat < numProcesses) :
    (killProg pid).run k = ((k.sysKill pid).1, []) := by
  rw [killProg, Prog.run, (Kernel.sysKill_of_lt h).1, if_neg (by simp), Prog.run]

/-- The condition for one argument. -/
lemma killsNamed_iff (a : List Byte) (k : Kernel numProcesses) :
    KillsNamed a k ((killProg (BitVec.ofNat 32 (decValue (a.takeWhile isDigit)))).run k).1
        ((killProg (BitVec.ofNat 32 (decValue (a.takeWhile isDigit)))).run k).2 ↔
      (∃ n, n < 2 ^ 32 ∧ Numeral a n) ∨
        numProcesses ≤ decValue (a.takeWhile isDigit) % 2 ^ 32 := by
  generalize hv : decValue (a.takeWhile isDigit) = v
  have hpid : (BitVec.ofNat 32 v).toNat = v % 2 ^ 32 := BitVec.toNat_ofNat v 32
  by_cases hbad : numProcesses ≤ v % 2 ^ 32
  · refine iff_of_true ?_ (Or.inr hbad)
    rw [killProg_bad (by rwa [hpid])]
    exact ⟨fun p hp => absurd rfl hp, fun _ => ⟨fun _ => rfl, rfl⟩⟩
  · have hlt : v % 2 ^ 32 < numProcesses := Nat.not_le.1 hbad
    have hlt' : (BitVec.ofNat 32 v).toNat < numProcesses := by rwa [hpid]
    have hst := (Kernel.sysKill_of_lt (k := k) hlt').2
    rw [killProg_good hlt']
    constructor
    · intro h
      -- nothing is reported, so a process must have been named
      by_contra hno
      have hnone : ∀ p : Pid, ¬ Numeral a p := by
        intro p hp
        have hp3 : (p : ℕ) < 3 := p.isLt
        exact hno (Or.inl ⟨p, by omega, hp⟩)
      have hout : [] = cstr "kill: bad pid\n" := (h.other hnone).2
      exact absurd hout (by decide)
    · rintro (⟨n, hn, hnum⟩ | hle)
      · -- the process that `sys_kill` got is the one that was named
        have hmod : v % 2 ^ 32 = n := by rw [← hv, hnum.value, Nat.mod_eq_of_lt hn]
        constructor
        · intro p hp
          rw [hst p hp, hpid, hmod]
          exact hnum
        · intro h
          exact absurd (hmod ▸ hnum) (h ⟨v % 2 ^ 32, hlt⟩)
      · exact absurd hle hbad

/-- **When the shell kills only what was named.**  Without an argument `kill` prints its usage.
With one, it has killed only what was named exactly if the argument is a numeral below
`2 ^ 32`, or the value of its leading digits is no process's number modulo `2 ^ 32`. -/
theorem kills_named_iff {text line arg : List Byte} (hline : CString text line)
    (hd : dispatchCommand line = some (.kill arg)) :
    ∃ a prog, CString a arg ∧ dispatch line = some prog ∧
      (a = [] → prog = .write (cstr "usage: kill <pid>\n") .ret) ∧
      (a ≠ [] → ∀ k : Kernel numProcesses, KillsNamed a k (prog.run k).1 (prog.run k).2 ↔
        (∃ n, n < 2 ^ 32 ∧ Numeral a n) ∨
          numProcesses ≤ decValue (a.takeWhile isDigit) % 2 ^ 32) := by
  obtain ⟨a, ha⟩ := dispatchCommand_kill hline hd
  have hprog : dispatch line = cmdKill arg := by
    rw [dispatch, hd]
    rfl
  by_cases hnil : a = []
  · subst hnil
    exact ⟨[], _, ha, hprog.trans (cmdKill_nil ha), fun _ => rfl, fun h => absurd rfl h⟩
  · exact ⟨a, _, ha, hprog.trans (cmdKill_eq ha hnil), fun h => absurd h hnil,
      fun _ k => killsNamed_iff a k⟩

/-- `kill 1` kills process 1. -/
theorem kills_named_one :
    ∃ prog, dispatch (literal "kill 1") = some prog ∧
      KillsNamed (cstr "1") (bootKernel qemuLayout) (prog.run (bootKernel qemuLayout)).1
        (prog.run (bootKernel qemuLayout)).2 := by
  have hd : dispatchCommand (literal "kill 1") = some (.kill (literal "1")) := by
    decide
  obtain ⟨a, prog, ha, hprog, -, hiff⟩ :=
    kills_named_iff (cString_literal "kill 1" (by decide)) hd
  obtain rfl : cstr "1" = a := (cString_literal "1" (by decide)).unique ha
  refine ⟨prog, hprog, (hiff (by decide) _).2 (Or.inl ⟨1, by decide, ?_⟩)⟩
  exact ⟨cstr "1", [], by simp, by decide, by decide, by simp, by decide⟩

/-- `kill abc` kills process 0, which it does not name. -/
theorem kill_abc_kills_zero :
    dispatchCommand (literal "kill abc") = some (.kill (literal "abc")) ∧
      ∃ prog, dispatch (literal "kill abc") = some prog ∧
        (bootKernel qemuLayout).st 0 = .ready ∧
        (prog.run (bootKernel qemuLayout)).1.st 0 = .dead ∧
        ¬ KillsNamed (cstr "abc") (bootKernel qemuLayout) (prog.run (bootKernel qemuLayout)).1
          (prog.run (bootKernel qemuLayout)).2 := by
  have hd : dispatchCommand (literal "kill abc") = some (.kill (literal "abc")) := by
    decide
  have hprog : dispatch (literal "kill abc") = some (killProg 0#32) := by
    have hkill := cmdKill_eq (cString_literal "abc" (by decide)) (by decide)
    have hzero : decValue ((cstr "abc").takeWhile isDigit) = 0 := by decide
    rw [hzero] at hkill
    rw [dispatch, hd]
    exact hkill
  refine ⟨hd, killProg 0#32, hprog, rfl, by decide, ?_⟩
  intro h
  obtain ⟨ds, bl, heq, hne, hds, -⟩ := h.named 0 (by decide)
  obtain ⟨c, ds, rfl⟩ := List.exists_cons_of_ne_nil hne
  rw [show cstr "abc" = [0x61#8, 0x62#8, 0x63#8] by decide] at heq
  have hc : 0x61#8 = c := (List.cons.inj heq).1
  exact absurd (hds c List.mem_cons_self) (by rw [← hc]; decide)

end RingNova
