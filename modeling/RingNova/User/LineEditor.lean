/-
# The line editor

The loop of `main` in `user/apps/shell/shell.c`.  It reads one byte at a time and keeps the
bytes of the current line in `line`, of which `n` are in use.  At the end of a line it
terminates the buffer and hands it to `dispatch`.

What is kept is a fold of the bytes received since the last line end (`kept`): a backspace
removes the last kept byte, and any other byte is appended as long as there is room for it and
for the terminator.  What the terminal shows behind the prompt is as long as what is kept.  The
loop ends only with a line that runs `crash` (`CrashLine`).
-/
import Mathlib.Data.List.DropRight
import Mathlib.Data.List.ReduceOption
import RingNova.User.Grammar

namespace RingNova

/-! ### `main` -/

/-- `LINE_MAX`. -/
def lineMax : ℕ := 64

/-- What `main` does to the outside. -/
inductive Effect
  /-- `ulib_puts` of a literal. -/
  | puts (s : String)
  /-- `sys_write` of the byte that was read. -/
  | echo (c : Byte)
  /-- The call of `dispatch` with this buffer. -/
  | dispatch (line : List Byte)
deriving DecidableEq

/-- `prompt`. -/
def Effect.prompt : Effect := .puts "shell> "

/-- Erases one character on the terminal. -/
def Effect.erase : Effect := .puts "\x08 \x08"

/-- The variables of `main`, and what it has done. -/
structure Editor where
  line : Vector Byte lineMax
  n : Word
  out : List Effect
  /-- The kernel has killed the process, because `cmd_crash` has faulted. -/
  killed : Bool

/-- The assignment `line[i] = c`. -/
def store (line : Vector Byte lineMax) (i : Word) (c : Byte) : Option (Vector Byte lineMax) :=
  if h : i.toNat < lineMax then some (line.set i.toNat c h) else none

/-- The end of a line. -/
def isEnter (c : Byte) : Bool := c = 0x0D#8 || c = 0x0A#8

/-- The branch for the end of a line.  `dispatch` returns unless it runs `cmd_crash`. -/
def Editor.enter (e : Editor) : Option Editor := do
  let line ← store e.line e.n 0#8
  let _ ← RingNova.dispatch line.toList
  let out := e.out ++ [.puts "\r\n", .dispatch line.toList]
  if dispatchCommand line.toList = some .crash then
    return { e with line := line, out := out, killed := true }
  return { e with line := line, n := 0#32, out := out ++ [.prompt] }

/-- A backspace. -/
def isErase (c : Byte) : Bool := c = 0x08#8 || c = 0x7F#8

/-- The branch for a backspace. -/
def Editor.erase (e : Editor) : Editor :=
  if 0#32 < e.n then { e with n := e.n - 1#32, out := e.out ++ [.erase] } else e

/-- The branch for any other byte. -/
def Editor.append (e : Editor) (c : Byte) : Option Editor :=
  if e.n + 1#32 < BitVec.ofNat 32 lineMax then do
    let line ← store e.line e.n c
    return { e with line := line, n := e.n + 1#32, out := e.out ++ [.echo c] }
  else some e

/-- One round of the loop, with what `sys_read` has delivered: nothing if its result is not
positive. -/
def Editor.step (e : Editor) : Option Byte → Option Editor
  | none => some e
  | some c =>
    if e.killed then some e
    else if isEnter c then e.enter
    else if isErase c then some e.erase
    else e.append c

/-- The state before the loop.  `line` is not initialised. -/
def Editor.start (line : Vector Byte lineMax) : Editor where
  line := line
  n := 0#32
  out := [.puts "\nRingNova shell — type 'help' for commands\n", .prompt]
  killed := false

/-- What becomes of the kept bytes with another byte. -/
def edit (bs : List Byte) (c : Byte) : List Byte :=
  if isErase c then bs.dropLast else if bs.length < lineMax - 1 then bs ++ [c] else bs

/-- What is kept of the bytes received: the fold of those since the last line end. -/
def kept (received : List Byte) : List Byte :=
  (received.rtakeWhile fun c => !isEnter c).foldl edit []

/-- The kept bytes, up to the first NUL among them, are a line that runs `crash`. -/
def Crashes (bs : List Byte) : Prop := firstToken (bs.takeWhile (· ≠ 0#8)) = cstr "crash"

/-- A line that runs `crash` is among the bytes received. -/
def CrashLine (received : List Byte) : Prop :=
  ∃ pre c post, received = pre ++ c :: post ∧ isEnter c = true ∧ Crashes (kept pre)

/-- What the terminal shows behind the last prompt: the number of echoed bytes, less the number
of erase sequences. -/
def shown (out : List Effect) : ℤ :=
  let since := out.rtakeWhile fun x => x ≠ .prompt
  (since.countP fun x => x matches .echo _ : ℤ) - since.count .erase

lemma length_edit_le {bs : List Byte} (h : bs.length ≤ lineMax - 1) (c : Byte) :
    (edit bs c).length ≤ lineMax - 1 := by
  rw [edit]
  split_ifs with he hlen
  · rw [List.length_dropLast]
    omega
  · rw [List.length_append, List.length_singleton]
    omega
  · exact h

/-- There is always room for the terminator. -/
lemma length_kept_le (received : List Byte) : (kept received).length ≤ lineMax - 1 := by
  rw [kept]
  generalize received.rtakeWhile (fun c => !isEnter c) = since
  induction since using List.reverseRecOn with
  | nil => simp
  | append_singleton since c ih =>
    rw [List.foldl_append]
    exact length_edit_le ih c

lemma kept_concat_enter (received : List Byte) {c : Byte} (h : isEnter c = true) :
    kept (received ++ [c]) = [] := by
  rw [kept, List.rtakeWhile_concat_neg _ _ _ (by simp [h])]
  rfl

lemma kept_concat (received : List Byte) {c : Byte} (h : isEnter c = false) :
    kept (received ++ [c]) = edit (kept received) c := by
  rw [kept, List.rtakeWhile_concat_pos _ _ _ (by simp [h]), List.foldl_append]
  rfl

lemma crashLine_concat {received : List Byte} {c : Byte} :
    CrashLine (received ++ [c]) ↔
      CrashLine received ∨ isEnter c = true ∧ Crashes (kept received) := by
  constructor
  · rintro ⟨pre, x, post, heq, hx, hcrash⟩
    rcases List.eq_nil_or_concat post with rfl | ⟨post, y, rfl⟩
    · obtain ⟨rfl, hxc⟩ := List.append_inj' heq rfl
      obtain rfl : c = x := List.singleton_inj.1 hxc
      exact Or.inr ⟨hx, hcrash⟩
    · rw [List.concat_eq_append, ← List.cons_append, ← List.append_assoc] at heq
      obtain ⟨rfl, -⟩ := List.append_inj' heq rfl
      exact Or.inl ⟨pre, x, post, rfl, hx, hcrash⟩
  · rintro (⟨pre, x, post, rfl, hx, hcrash⟩ | ⟨hc, hcrash⟩)
    · exact ⟨pre, x, post ++ [c], by simp, hx, hcrash⟩
    · exact ⟨received, c, [], rfl, hc, hcrash⟩

lemma shown_prompt (out : List Effect) : shown (out ++ [.prompt]) = 0 := by
  rw [shown, List.rtakeWhile_concat_neg _ _ _ (by simp)]
  rfl

lemma shown_echo (out : List Effect) (c : Byte) : shown (out ++ [.echo c]) = shown out + 1 := by
  rw [shown, List.rtakeWhile_concat_pos _ _ _ (by simp [Effect.prompt])]
  simp [shown, Effect.erase]
  ring

lemma shown_erase (out : List Effect) : shown (out ++ [.erase]) = shown out - 1 := by
  rw [shown, List.rtakeWhile_concat_pos _ _ _ (by decide)]
  simp [shown, Effect.erase]
  ring

/-! ### Rounds -/

lemma store_eq (line : Vector Byte lineMax) {i : Word} (h : i.toNat < lineMax) (c : Byte) :
    ∃ line', store line i c = some line' ∧
      line'.toList.take (i.toNat + 1) = line.toList.take i.toNat ++ [c] := by
  refine ⟨_, dif_pos h, ?_⟩
  have hlen : i.toNat < line.toList.length := by rwa [Vector.length_toList]
  rw [Vector.toList_set, List.set_eq_take_append_cons_drop, if_pos hlen]
  rw [List.take_append, List.length_take, Nat.min_eq_left hlen.le]
  simp

/-- The line in a buffer ends at the first NUL. -/
lemma cString_buffer {bs buf : List Byte} (h : bs ++ [0#8] <+: buf) :
    CString (bs.takeWhile (· ≠ 0#8)) buf := by
  obtain ⟨junk, rfl⟩ := h
  refine ⟨?_, ?_⟩
  · intro hmem
    simpa using List.mem_takeWhile_imp hmem
  · have hsplit := List.takeWhile_append_dropWhile (p := (· ≠ 0#8)) (l := bs)
    cases hrest : bs.dropWhile (· ≠ 0#8) with
    | nil =>
      rw [hrest, List.append_nil] at hsplit
      exact ⟨junk, by rw [hsplit, List.append_assoc]; rfl⟩
    | cons c rest =>
      -- a NUL was typed
      have hhead := List.head?_dropWhile_not (· ≠ 0#8) bs
      rw [hrest] at hhead
      obtain rfl : c = 0#8 := by simpa using hhead
      refine ⟨rest ++ [0#8] ++ junk, ?_⟩
      rw [hrest] at hsplit
      conv_lhs => rw [← hsplit]
      simp

/-- `cmd_crash` runs exactly for a line that says so. -/
lemma dispatchCommand_crash_iff {bs buf : List Byte} (h : bs ++ [0#8] <+: buf) :
    dispatchCommand buf = some .crash ↔ Crashes bs := by
  obtain ⟨rest, -, hwith⟩ := dispatchWith_eq (cString_buffer h)
  obtain ⟨-, -, -, -, -, hcrash, -⟩ := commandOf_iff (firstToken (bs.takeWhile (· ≠ 0#8))) rest
  rw [← dispatchWith_commands, hwith commands (List.Perm.refl _), Option.some_inj, hcrash, Crashes]

/-- Whether a program comes back to its caller. -/
def Prog.returns {N : ℕ} (k : Kernel N) : Prog → Bool
  | .ret => true
  | .write _ next => next.returns k
  | .ps size next => (next (k.sysPsBytes size)).returns k
  | .kill pid next => (next (k.sysKill pid).2).returns (k.sysKill pid).1
  | .fault => false

lemma ulibPuts_returns {N : ℕ} {k : Kernel N} {s : List Byte} {next prog : Prog}
    (h : ulibPuts s next = some prog) : prog.returns k = next.returns k := by
  rw [ulibPuts, Option.map_eq_some_iff] at h
  obtain ⟨n, -, rfl⟩ := h
  rfl

lemma cmdKill_returns {N : ℕ} {k : Kernel N} {arg : List Byte} {prog : Prog}
    (h : cmdKill arg = some prog) : prog.returns k = true := by
  rw [cmdKill, Option.bind_eq_bind, Option.bind_eq_some_iff] at h
  obtain ⟨c, -, h⟩ := h
  split_ifs at h with hc
  · rw [ulibPuts_returns h]
    rfl
  · simp only [Option.bind_eq_bind, Option.bind_eq_some_iff, Option.pure_def, Option.some_inj] at h
    obtain ⟨pid, -, badPid, hbad, rfl⟩ := h
    rw [Prog.returns]
    split_ifs with hrc
    · rw [ulibPuts_returns hbad]
      rfl
    · rfl

/-- Every command but `cmd_crash` comes back, whatever the kernel answers. -/
lemma Command.returns_iff {N : ℕ} (k : Kernel N) {cmd : Command} {prog : Prog}
    (h : cmd.prog = some prog) : prog.returns k = true ↔ cmd ≠ .crash := by
  cases cmd with
  | nothing =>
    obtain rfl : Prog.ret = prog := Option.some.inj h
    simp [Prog.returns]
  | ps =>
    obtain rfl := Option.some.inj h
    rw [Prog.returns]
    split_ifs <;> simp [Prog.returns]
  | kill rest => simpa using cmdKill_returns h
  | crash =>
    rw [Command.prog, cmdCrash] at h
    rw [ulibPuts_returns h]
    simp [Prog.returns]
  | help | echo rest | clear | unknown =>
    simp only [Command.prog, cmdHelp, cmdEcho, cmdClear] at h
    rw [ulibPuts_returns h]
    simp [Prog.returns]

/-- `dispatch` comes back unless it runs `cmd_crash`. -/
lemma dispatch_returns_iff {N : ℕ} (k : Kernel N) {buf : List Byte} {prog : Prog}
    (h : dispatch buf = some prog) :
    prog.returns k = true ↔ dispatchCommand buf ≠ some .crash := by
  rw [dispatch, Option.bind_eq_some_iff] at h
  obtain ⟨cmd, hcmd, hprog⟩ := h
  rw [hcmd, ne_eq, Option.some_inj]
  exact Command.returns_iff k hprog

/-- The state of a running shell that has received these bytes. -/
structure Editor.Inv (received : List Byte) (e : Editor) : Prop where
  running : e.killed = false
  count : e.n.toNat = (kept received).length
  held : e.line.toList.take e.n.toNat = kept received
  shown : RingNova.shown e.out = e.n.toNat

namespace Editor.Inv

variable {received : List Byte} {e : Editor}

lemma start (line : Vector Byte lineMax) : Editor.Inv [] (.start line) where
  running := rfl
  count := rfl
  held := rfl
  shown := shown_prompt [_]

lemma lt (h : e.Inv received) : e.n.toNat < lineMax := by
  have hlen := length_kept_le received
  have hmax : lineMax = 64 := rfl
  rw [← h.count] at hlen
  omega

/-- At the end of a line the buffer holds what is kept, and a terminator.  The process is killed
exactly if `dispatch` does not come back. -/
lemma enter (h : e.Inv received) {c : Byte} (hc : isEnter c = true) :
    ∃ e' buf prog, e.step (some c) = some e' ∧ kept received ++ [0#8] <+: buf ∧
      e'.out = e.out ++ [.puts "\r\n", .dispatch buf] ++ (if e'.killed then [] else [.prompt]) ∧
      RingNova.dispatch buf = some prog ∧
      (∀ (N : ℕ) (k : Kernel N), prog.returns k = !e'.killed) ∧
      (e'.killed = true ↔ Crashes (kept received)) ∧
      (e'.killed = false → e'.Inv (received ++ [c])) ∧ e'.n.toNat ≤ lineMax - 1 := by
  obtain ⟨line, hline, htake⟩ := store_eq e.line h.lt 0#8
  rw [h.held] at htake
  have hbuf : kept received ++ [0#8] <+: line.toList := by
    rw [← htake]
    exact List.take_prefix _ _
  have hprog := dispatch_eq (cString_buffer hbuf)
  have hcrash := dispatchCommand_crash_iff hbuf
  have hstep : e.step (some c) = e.enter := by
    rw [Editor.step, h.running, if_neg (by simp), if_pos hc]
  have hn := h.lt
  rw [hstep, Editor.enter, hline]
  simp only [Option.bind_eq_bind, Option.bind_some, hprog]
  by_cases hcmd : dispatchCommand line.toList = some .crash
  · rw [if_pos hcmd]
    refine ⟨_, line.toList, _, rfl, hbuf, by simp, hprog, ?_, ?_, by simp,
      by simpa using Nat.le_sub_one_of_lt hn⟩
    · intro N k
      simpa [hcmd] using dispatch_returns_iff k hprog
    · simpa using hcrash.1 hcmd
  · rw [if_neg hcmd]
    refine ⟨_, line.toList, _, rfl, hbuf, by simp [h.running], hprog, ?_, ?_, ?_, by simp⟩
    · intro N k
      simpa [hcmd, h.running] using dispatch_returns_iff k hprog
    · simpa [h.running] using mt hcrash.2 hcmd
    · intro hrun
      refine ⟨hrun, ?_, ?_, ?_⟩
      · simp [kept_concat_enter received hc]
      · simp [kept_concat_enter received hc]
      · exact shown_prompt _

/-- A backspace removes the last kept byte, here and on the terminal. -/
lemma erase (h : e.Inv received) {c : Byte} (hc : isEnter c = false) (he : isErase c = true) :
    e.erase.Inv (received ++ [c]) := by
  have hkept : kept (received ++ [c]) = (kept received).dropLast := by
    rw [kept_concat received hc, edit, if_pos he]
  rw [Editor.erase]
  split_ifs with hn
  · have hn1 : 0 < e.n.toNat := hn
    have hsub : (e.n - 1#32).toNat = e.n.toNat - 1 := by
      rw [BitVec.toNat_sub_of_le (by exact hn1)]
      rfl
    refine ⟨h.running, ?_, ?_, ?_⟩
    · rw [hkept, List.length_dropLast, ← h.count]
      exact hsub
    · rw [hkept, ← h.held, List.dropLast_take (by simpa using h.lt)]
      exact congrArg (fun i => e.line.toList.take i) hsub
    · have hsh := h.shown
      simp only [shown_erase, hsub]
      omega
  · -- there is nothing to remove
    have hn0 : e.n.toNat = 0 := by
      have : ¬ 0 < e.n.toNat := hn
      omega
    have hnil : kept received = [] := List.length_eq_zero_iff.1 (h.count.symm.trans hn0)
    refine ⟨h.running, ?_, ?_, h.shown⟩
    · rw [hkept, hnil, hn0]
      rfl
    · rw [hkept, hnil, hn0]
      rfl

/-- Any other byte is kept and echoed if there is room for it, and otherwise neither. -/
lemma append (h : e.Inv received) {c : Byte} (hc : isEnter c = false) (he : isErase c = false) :
    ∃ e', e.append c = some e' ∧ e'.Inv (received ++ [c]) := by
  have hkept : kept (received ++ [c]) =
      if (kept received).length < lineMax - 1 then kept received ++ [c] else kept received := by
    rw [kept_concat received hc, edit, if_neg (by simp [he])]
  have hmax : lineMax = 64 := rfl
  have hlt := h.lt
  have hadd : (e.n + 1#32).toNat = e.n.toNat + 1 := by
    rw [BitVec.toNat_add]
    simp only [BitVec.toNat_ofNat]
    omega
  have hiff : e.n + 1#32 < BitVec.ofNat 32 lineMax ↔ (kept received).length < lineMax - 1 := by
    rw [BitVec.lt_def, hadd, ← h.count]
    simp only [hmax, BitVec.toNat_ofNat]
    omega
  rw [Editor.append]
  by_cases hroom : (kept received).length < lineMax - 1
  · rw [if_pos hroom] at hkept
    obtain ⟨line, hline, htake⟩ := store_eq e.line hlt c
    rw [if_pos (hiff.2 hroom), hline]
    refine ⟨_, rfl, h.running, ?_, ?_, ?_⟩
    · rw [hkept, List.length_append, List.length_singleton, ← h.count]
      exact hadd
    · rw [hkept, ← h.held, ← htake]
      exact congrArg (fun i => line.toList.take i) hadd
    · have hsh := h.shown
      simp only [shown_echo, hadd]
      omega
  · rw [if_neg hroom] at hkept
    rw [if_neg (mt hiff.1 hroom)]
    refine ⟨e, rfl, h.running, ?_, ?_, h.shown⟩
    · rw [hkept]
      exact h.count
    · rw [hkept]
      exact h.held

end Editor.Inv

/-! ### Runs -/

/-- The shell is in bounds; it has been killed if a line ran `crash`; and as long as it is
running, it has received all bytes. -/
structure Editor.Reached (input : List (Option Byte)) (e : Editor) : Prop where
  bound : e.n.toNat ≤ lineMax - 1
  killed_iff : e.killed = true ↔ CrashLine input.reduceOption
  inv : e.killed = false → e.Inv input.reduceOption

lemma Editor.Reached.of_inv {input : List (Option Byte)} {e : Editor}
    (h : e.Inv input.reduceOption) (hno : ¬ CrashLine input.reduceOption) : e.Reached input where
  bound := Nat.le_sub_one_of_lt h.lt
  killed_iff := by simp [h.running, hno]
  inv _ := h

/-- One round of the loop. -/
lemma Editor.Reached.step {input : List (Option Byte)} {e : Editor} (h : e.Reached input)
    (read : Option Byte) : ∃ e', e.step read = some e' ∧ e'.Reached (input ++ [read]) := by
  cases read with
  | none =>
    have hread : (input ++ [none]).reduceOption = input.reduceOption := by
      simp [List.reduceOption_append]
    exact ⟨e, rfl, h.bound, by rw [hread, h.killed_iff], by rw [hread]; exact h.inv⟩
  | some c =>
    have hread : (input ++ [some c]).reduceOption = input.reduceOption ++ [c] := by
      simp [List.reduceOption_append]
    cases hk : e.killed with
    | true =>
      refine ⟨e, by rw [Editor.step, if_pos hk], h.bound, ?_, ?_⟩
      · rw [hread, crashLine_concat]
        exact iff_of_true hk (Or.inl (h.killed_iff.1 hk))
      · intro hrun
        exact absurd hrun (by simp [hk])
    | false =>
      have hinv := h.inv hk
      have hno : ¬ CrashLine input.reduceOption := by
        rw [← h.killed_iff, hk]
        simp
      cases hc : isEnter c with
      | true =>
        obtain ⟨e', buf, prog, hstep, -, -, -, -, hcrash, hinv', hbound'⟩ := hinv.enter hc
        refine ⟨e', hstep, hbound', ?_, by rwa [hread]⟩
        rw [hread, crashLine_concat, hcrash]
        simp [hno, hc]
      | false =>
        have hno' : ¬ CrashLine (input ++ [some c]).reduceOption := by
          rw [hread, crashLine_concat]
          simp [hno, hc]
        cases he : isErase c with
        | true =>
          have hinv' := hinv.erase hc he
          rw [← hread] at hinv'
          exact ⟨e.erase, by simp [Editor.step, hk, hc, he], .of_inv hinv' hno'⟩
        | false =>
          obtain ⟨e', happend, hinv'⟩ := hinv.append hc he
          rw [← hread] at hinv'
          exact ⟨e', by simp [Editor.step, hk, hc, he, happend], .of_inv hinv' hno'⟩

end RingNova
