/-
# The grammar of the shell

Which command `dispatch` runs.  A line is cut at its blanks: behind the leading blanks comes the
first token (`firstToken`), and behind that, without the blanks in between, the argument
(`argument`).  `match_word` accepts a word exactly if it is the first token (`matchWord_eq`), so
the outcome depends on the token only, and the order of the tests does not matter.  `shellProg`
is what the shell does for a token and an argument.

A read at the end of an object is `none`.  So a run on the object that ends with the terminator
has a result only if nothing behind the terminator is read.
-/
import RingNova.User.Shell

namespace RingNova

/-! ### Tokens -/

/-- A character that is no blank. -/
def notBlank (c : Byte) : Bool := !isBlank c

/-- The first maximal sequence without blanks. -/
def firstToken (text : List Byte) : List Byte := (text.dropWhile isBlank).takeWhile notBlank

/-- The text behind the first token, without its leading blanks. -/
def argument (text : List Byte) : List Byte :=
  ((text.dropWhile isBlank).drop (firstToken text).length).dropWhile isBlank

lemma notBlank_eq_true {c : Byte} : notBlank c = true ↔ isBlank c = false := by
  rw [notBlank, Bool.not_eq_true']

/-- The test of `match_word` for the character behind the word. -/
lemma isBlank_eq_false {c : Byte} : isBlank c = false ↔ c ≠ 0x20#8 ∧ c ≠ 0x09#8 := by
  simp [isBlank]

/-- Only a line of blanks has no token. -/
lemma firstToken_eq_nil {text : List Byte} :
    firstToken text = [] ↔ text.dropWhile isBlank = [] := by
  rw [firstToken]
  cases hbody : text.dropWhile isBlank with
  | nil => simp
  | cons c body =>
    have hc : isBlank c = false := by
      have hhead := List.head?_dropWhile_not isBlank text
      rw [hbody] at hhead
      simpa using hhead
    rw [List.takeWhile_cons_of_pos (notBlank_eq_true.2 hc)]
    simp

/-! ### Tests -/

/-- **A word is accepted** exactly if it is the text up to the first blank. -/
lemma matchWord_eq {text s word w : List Byte} (h : CString text s) (hw : CString word w)
    (hlen : word.length < 2 ^ 32) (hblank : ∀ c ∈ word, notBlank c = true) :
    matchWord s w = some (if text.takeWhile notBlank = word
      then skipSpaces (s.drop word.length) else none) := by
  obtain ⟨d, hd, hiff⟩ := ulibStrncmp_eq h hw hlen
  have hn : (BitVec.ofNat 32 word.length).toNat = word.length := by
    rw [BitVec.toNat_ofNat, Nat.mod_eq_of_lt hlen]
  simp only [matchWord, ulibStrlen_eq hw, hd, hn, Option.bind_eq_bind, Option.bind_some]
  by_cases hpre : word <+: text
  · obtain ⟨tail, rfl⟩ := hpre
    have hd0 : ¬ d ≠ 0 := not_not.2 (hiff.2 ⟨tail, rfl⟩)
    have hdrop : CString tail (s.drop word.length) := by
      have := h.drop (n := word.length) (by simp)
      rwa [List.drop_left] at this
    obtain ⟨rest, hrest, -⟩ := skipSpaces_eq hdrop
    have htoken : (word ++ tail).takeWhile notBlank = word ++ tail.takeWhile notBlank :=
      List.takeWhile_append_of_pos hblank
    rw [if_neg hd0, htoken, hrest]
    cases tail with
    | nil =>
      -- the line ends behind the word
      rw [hdrop.nil, Option.bind_some, if_neg (by simp)]
      simp
    | cons c tail =>
      obtain ⟨hc, s', hs', -⟩ := hdrop.cons
      rw [hs', List.head?_cons, Option.bind_some]
      cases hb : isBlank c with
      | true =>
        have hno : ¬ (c ≠ 0#8 ∧ c ≠ 0x20#8 ∧ c ≠ 0x09#8) := by
          rintro ⟨-, hcs⟩
          exact absurd (isBlank_eq_false.2 hcs) (by simp [hb])
        rw [if_neg hno, List.takeWhile_cons_of_neg (by simp [notBlank, hb])]
        simp
      | false =>
        -- the token goes on behind the word
        rw [if_pos ⟨hc, isBlank_eq_false.1 hb⟩,
          List.takeWhile_cons_of_pos (notBlank_eq_true.2 hb)]
        simp
  · have hd0 : d ≠ 0 := fun h0 => hpre (hiff.1 h0)
    have hne : text.takeWhile notBlank ≠ word := by
      rintro rfl
      exact hpre (List.takeWhile_prefix _)
    rw [if_pos hd0, if_neg hne]
    rfl

/-- A test of `dispatch`: the literal of a word without blanks. -/
def IsTest (entry : List Byte × (List Byte → Command)) : Prop :=
  ∃ word, entry.1 = word ++ [0#8] ∧ 0#8 ∉ word ∧ word.length < 2 ^ 32 ∧
    ∀ c ∈ word, notBlank c = true

lemma isTest_of_mem_commands {entry : List Byte × (List Byte → Command)}
    (h : entry ∈ commands) : IsTest entry := by
  simp only [commands, List.mem_cons, List.not_mem_nil, or_false] at h
  rcases h with rfl | rfl | rfl | rfl | rfl | rfl
  all_goals exact ⟨_, rfl, by decide, by decide, by decide⟩

/-- What the tests make of a token: the command of the test for it, or else the last resort. -/
def Selects (table : List (List Byte × (List Byte → Command))) (token rest : List Byte)
    (cmd : Command) : Prop :=
  (∃ entry ∈ table, entry.1 = token ++ [0#8] ∧ cmd = entry.2 rest) ∨
    ((∀ entry ∈ table, entry.1 ≠ token ++ [0#8]) ∧ cmd = .unknown)

/-- The first test that succeeds is one for the token. -/
lemma firstMatch_selects {text p rest : List Byte} (h : CString text p)
    (hrest : skipSpaces (p.drop (text.takeWhile notBlank).length) = some rest)
    {table : List (List Byte × (List Byte → Command))} (htable : ∀ entry ∈ table, IsTest entry) :
    ∃ cmd, firstMatch p table = some cmd ∧ Selects table (text.takeWhile notBlank) rest cmd := by
  induction table with
  | nil => exact ⟨.unknown, rfl, Or.inr ⟨by simp, rfl⟩⟩
  | cons entry table ih =>
    obtain ⟨word, hentry, hmem, hlen, hblank⟩ := htable entry List.mem_cons_self
    have hm := matchWord_eq h ⟨hmem, [], hentry⟩ hlen hblank
    rw [firstMatch, hm]
    by_cases hw : text.takeWhile notBlank = word
    · rw [if_pos hw, ← hw, hrest]
      exact ⟨_, rfl, Or.inl ⟨entry, List.mem_cons_self, by rw [hentry, hw], rfl⟩⟩
    · rw [if_neg hw]
      have hne : entry.1 ≠ text.takeWhile notBlank ++ [0#8] := by
        rw [hentry]
        exact fun heq => hw (List.append_cancel_right heq).symm
      obtain ⟨cmd, hcmd, hsel⟩ := ih fun e he => htable e (List.mem_cons_of_mem _ he)
      refine ⟨cmd, hcmd, ?_⟩
      rcases hsel with ⟨e, he, hsel⟩ | ⟨hno, hcmd⟩
      · exact Or.inl ⟨e, List.mem_cons_of_mem _ he, hsel⟩
      · exact Or.inr ⟨List.forall_mem_cons.2 ⟨hne, hno⟩, hcmd⟩

/-- The order of the tests does not matter. -/
lemma Selects.perm {table table' : List (List Byte × (List Byte → Command))}
    {token rest : List Byte} {cmd : Command} (hperm : table.Perm table')
    (h : Selects table token rest cmd) : Selects table' token rest cmd := by
  rcases h with ⟨e, he, hsel⟩ | ⟨hno, hcmd⟩
  · exact Or.inl ⟨e, hperm.mem_iff.1 he, hsel⟩
  · exact Or.inr ⟨fun e he => hno e (hperm.mem_iff.2 he), hcmd⟩

/-- No two tests are for the same word. -/
lemma Selects.unique {token rest : List Byte} {cmd cmd' : Command}
    (h : Selects commands token rest cmd) (h' : Selects commands token rest cmd') :
    cmd = cmd' := by
  have hnodup : (commands.map Prod.fst).Nodup := by decide
  rcases h with ⟨e, he, hkey, rfl⟩ | ⟨hno, rfl⟩
  · rcases h' with ⟨e', he', hkey', rfl⟩ | ⟨hno', -⟩
    · rw [List.inj_on_of_nodup_map hnodup he he' (hkey.trans hkey'.symm)]
    · exact absurd hkey (hno' e he)
  · rcases h' with ⟨e', he', hkey', -⟩ | ⟨-, rfl⟩
    · exact absurd hkey' (hno e' he')
    · rfl

/-! ### The outcome -/

/-- The command for a token and a pointer to its argument. -/
def commandOf (token rest : List Byte) : Command :=
  if token = [] then .nothing
  else if token = cstr "help" then .help
  else if token = cstr "ps" then .ps
  else if token = cstr "kill" then .kill rest
  else if token = cstr "echo" then .echo rest
  else if token = cstr "clear" then .clear
  else if token = cstr "crash" then .crash
  else .unknown

lemma selects_commandOf {token rest : List Byte} (h : token ≠ []) :
    Selects commands token rest (commandOf token rest) := by
  rw [commandOf, if_neg h]
  split_ifs with h1 h2 h3 h4 h5 h6
  · exact Or.inl ⟨(literal "help", fun _ => .help), by simp [commands], by rw [h1, literal], rfl⟩
  · exact Or.inl ⟨(literal "ps", fun _ => .ps), by simp [commands], by rw [h2, literal], rfl⟩
  · exact Or.inl ⟨(literal "kill", .kill), by simp [commands], by rw [h3, literal], rfl⟩
  · exact Or.inl ⟨(literal "echo", .echo), by simp [commands], by rw [h4, literal], rfl⟩
  · exact Or.inl ⟨(literal "clear", fun _ => .clear), by simp [commands], by rw [h5, literal], rfl⟩
  · exact Or.inl ⟨(literal "crash", fun _ => .crash), by simp [commands], by rw [h6, literal], rfl⟩
  · refine Or.inr ⟨?_, rfl⟩
    intro entry he hkey
    simp only [commands, List.mem_cons, List.not_mem_nil, or_false] at he
    rcases he with rfl | rfl | rfl | rfl | rfl | rfl
    · exact h1 (List.append_cancel_right hkey).symm
    · exact h2 (List.append_cancel_right hkey).symm
    · exact h3 (List.append_cancel_right hkey).symm
    · exact h4 (List.append_cancel_right hkey).symm
    · exact h5 (List.append_cancel_right hkey).symm
    · exact h6 (List.append_cancel_right hkey).symm

/-- `dispatch` with another table of tests. -/
def dispatchWith (table : List (List Byte × (List Byte → Command))) (line : List Byte) :
    Option Command := do
  let p ← skipSpaces line
  let c ← p.head?
  if c = 0#8 then return .nothing
  firstMatch p table

lemma dispatchWith_commands (line : List Byte) :
    dispatchWith commands line = dispatchCommand line := rfl

/-- **The first token decides**, in whatever order the tests are made. -/
lemma dispatchWith_eq {text line : List Byte} (hline : CString text line) :
    ∃ rest, CString (argument text) rest ∧
      ∀ table, table.Perm commands →
        dispatchWith table line = some (commandOf (firstToken text) rest) := by
  obtain ⟨p, hp, hbody⟩ := skipSpaces_eq hline
  have hpre : firstToken text <+: text.dropWhile isBlank := List.takeWhile_prefix _
  obtain ⟨rest, hrest, harg⟩ := skipSpaces_eq (hbody.drop hpre.length_le)
  refine ⟨rest, harg, ?_⟩
  intro table hperm
  simp only [dispatchWith, hp, Option.bind_eq_bind, Option.bind_some]
  by_cases hnil : firstToken text = []
  · rw [firstToken_eq_nil] at hnil
    rw [hnil] at hbody
    rw [hbody.nil, Option.bind_some, if_pos rfl, commandOf, if_pos (firstToken_eq_nil.2 hnil)]
    rfl
  · obtain ⟨c, body, hcons⟩ := List.exists_cons_of_ne_nil (mt firstToken_eq_nil.2 hnil)
    have hbody' := hbody
    rw [hcons] at hbody'
    obtain ⟨hc, s', hs', -⟩ := hbody'.cons
    have htable : ∀ entry ∈ table, IsTest entry :=
      fun entry he => isTest_of_mem_commands (hperm.mem_iff.1 he)
    obtain ⟨cmd, hcmd, hsel⟩ := firstMatch_selects hbody hrest htable
    have huniq := (hsel.perm hperm).unique (selects_commandOf hnil)
    rw [hs', List.head?_cons, Option.bind_some, if_neg hc, ← hs', hcmd, huniq, firstToken]

/-- A string is written up to its terminator. -/
lemma ulibPuts_eq {a s : List Byte} (h : CString a s) (next : Prog) :
    ulibPuts s next = some (.write (a.take (a.length % 2 ^ 32)) next) := by
  have hle : a.length % 2 ^ 32 ≤ a.length := Nat.mod_le _ _
  rw [ulibPuts, ulibStrlen_eq h, Option.map_some, BitVec.toNat_ofNat]
  obtain ⟨-, junk, rfl⟩ := h
  rw [List.take_append_of_le_length hle]

/-! ### The calls that are made -/

/-- What a command does, with the text of its argument: the syscalls, and whether it comes
back. -/
def Command.calls : Command → Prog
  | nothing => .ret
  | help => .write (cstr helpText) .ret
  | ps => .ps 256#32 fun bs => if 0 < bs.length then .write bs .ret else .ret
  | kill a =>
    if a = [] then .write (cstr "usage: kill <pid>\n") .ret
    else killProg (BitVec.ofNat 32 (decValue (a.takeWhile isDigit)))
  -- `ulib_strlen` counts modulo `2 ^ 32`
  | echo a => .write (a.take (a.length % 2 ^ 32)) (.write [0x0A#8] .ret)
  | clear => .write (cstr "\x1b[2J\x1b[H") .ret
  | crash => .write (cstr "crash: about to NULL-deref — kernel should survive\n") .fault
  | unknown => .write (cstr "unknown command — try 'help'\n") .ret

/-- What the shell does for a token and the text of an argument. -/
def shellProg (token a : List Byte) : Prog := (commandOf token a).calls

/-- The program of a command is determined by the text of its argument: nothing behind the
terminator is read. -/
lemma commandOf_prog (token : List Byte) {a rest : List Byte} (h : CString a rest) :
    (commandOf token rest).prog = some (shellProg token a) := by
  rw [shellProg, commandOf, commandOf]
  split_ifs
  · rfl
  · exact ulibPuts_literal helpText (by decide) (by decide +kernel) .ret
  · rfl
  · rw [Command.prog, Command.calls]
    split_ifs with ha
    · subst ha
      exact cmdKill_nil h
    · exact cmdKill_eq h ha
  · exact ulibPuts_eq h _
  · exact ulibPuts_literal "\x1b[2J\x1b[H" (by decide) (by decide) .ret
  · exact ulibPuts_literal "crash: about to NULL-deref — kernel should survive\n"
      (by decide) (by decide) .fault
  · exact ulibPuts_literal "unknown command — try 'help'\n"
      (by decide) (by decide) .ret

/-- **What `dispatch` does** with a line. -/
lemma dispatch_eq {text line : List Byte} (hline : CString text line) :
    dispatch line = some (shellProg (firstToken text) (argument text)) := by
  obtain ⟨rest, harg, hwith⟩ := dispatchWith_eq hline
  rw [dispatch, ← dispatchWith_commands, hwith commands (List.Perm.refl _)]
  exact commandOf_prog (firstToken text) harg

/-- The six words and the empty token differ. -/
lemma words_nodup : ([] :: ["help", "ps", "kill", "echo", "clear", "crash"].map cstr).Nodup := by
  decide

lemma commandOf_eq_nothing {token rest : List Byte} :
    commandOf token rest = .nothing ↔ token = [] := by
  rw [commandOf]
  split_ifs with h0 <;> simp [h0]

/-- Each word has its own command. -/
lemma commandOf_iff (token rest : List Byte) :
    (commandOf token rest = .help ↔ token = cstr "help") ∧
      (commandOf token rest = .ps ↔ token = cstr "ps") ∧
      (∀ arg, commandOf token rest = .kill arg ↔ token = cstr "kill" ∧ arg = rest) ∧
      (∀ arg, commandOf token rest = .echo arg ↔ token = cstr "echo" ∧ arg = rest) ∧
      (commandOf token rest = .clear ↔ token = cstr "clear") ∧
      (commandOf token rest = .crash ↔ token = cstr "crash") ∧
      (commandOf token rest = .unknown ↔ token ≠ [] ∧
        token ∉ ["help", "ps", "kill", "echo", "clear", "crash"].map cstr) := by
  have hwords := words_nodup
  simp only [List.map_cons, List.map_nil, List.nodup_cons, List.mem_cons, List.not_mem_nil,
    or_false, not_or] at hwords ⊢
  refine ⟨?_, ?_, ?_, ?_, ?_, ?_, ?_⟩ <;> grind [commandOf]

/-- The token that a command is for. -/
def Command.token : Command → Option (List Byte)
  | nothing => some []
  | help => some (cstr "help")
  | ps => some (cstr "ps")
  | kill _ => some (cstr "kill")
  | echo _ => some (cstr "echo")
  | clear => some (cstr "clear")
  | crash => some (cstr "crash")
  | unknown => none

/-- The commands can be told apart by what they do. -/
lemma Command.token_of_calls {cmd cmd' : Command} (h : cmd.calls = cmd'.calls) :
    cmd.token = cmd'.token := by
  have htexts : ([helpText, "usage: kill <pid>\n", "\x1b[2J\x1b[H",
      "unknown command — try 'help'\n"].map cstr).Nodup := by decide
  simp only [List.map_cons, List.map_nil, List.nodup_cons, List.mem_cons, List.not_mem_nil,
    or_false, not_or, List.nodup_nil, not_false_eq_true, and_true] at htexts
  obtain ⟨⟨h1, h2, h3⟩, ⟨h4, h5⟩, h6⟩ := htexts
  cases cmd <;> cases cmd' <;> grind [Command.calls, Command.token, killProg]

lemma token_commandOf {token : List Byte} (a : List Byte)
    (h : token ∈ [] :: ["help", "ps", "kill", "echo", "clear", "crash"].map cstr) :
    (commandOf token a).token = some token := by
  simp only [List.map_cons, List.map_nil, List.mem_cons, List.not_mem_nil, or_false] at h
  rw [commandOf]
  split_ifs <;> simp_all [Command.token]

lemma eq_of_token_commandOf {token w a : List Byte} (h : (commandOf token a).token = some w) :
    token = w := by
  rw [commandOf] at h
  split_ifs at h <;> simp_all [Command.token]

/-- Each word has its own program. -/
lemma shellProg_inj {token token' a a' : List Byte}
    (htoken : token' ∈ [] :: ["help", "ps", "kill", "echo", "clear", "crash"].map cstr)
    (h : shellProg token a = shellProg token' a') : token = token' :=
  eq_of_token_commandOf ((Command.token_of_calls h).trans (token_commandOf a' htoken))

/-- **The grammar of the shell.**  The first token of a line decides what `dispatch` does: a
line of blanks does nothing, each of the six words runs its command, and any other token is
reported as unknown.  A command gets the text behind the token, without leading blanks; what
`dispatch` then does is the command's program, and that of no other word.  The order of the six
tests does not matter, and `dispatch` does the same if the line's object ends with the
terminator, where a read behind it would have no result. -/
theorem dispatch_grammar {text line : List Byte} (hline : CString text line) :
    ∃ rest, CString (argument text) rest ∧
      (dispatchCommand line = some .help ↔ firstToken text = cstr "help") ∧
      (dispatchCommand line = some .ps ↔ firstToken text = cstr "ps") ∧
      (∀ arg, dispatchCommand line = some (.kill arg) ↔
        firstToken text = cstr "kill" ∧ arg = rest) ∧
      (∀ arg, dispatchCommand line = some (.echo arg) ↔
        firstToken text = cstr "echo" ∧ arg = rest) ∧
      (dispatchCommand line = some .clear ↔ firstToken text = cstr "clear") ∧
      (dispatchCommand line = some .crash ↔ firstToken text = cstr "crash") ∧
      (dispatchCommand line = some .nothing ↔ ∀ c ∈ text, isBlank c = true) ∧
      (dispatchCommand line = some .unknown ↔ (∃ c ∈ text, isBlank c = false) ∧
        firstToken text ∉ ["help", "ps", "kill", "echo", "clear", "crash"].map cstr) ∧
      (∀ table, table.Perm commands → dispatchWith table line = dispatchCommand line) ∧
      (∃ cmd, dispatchCommand line = some cmd ∧ dispatch line = cmd.prog) ∧
      dispatch line = some (shellProg (firstToken text) (argument text)) ∧
      dispatch (text ++ [0#8]) = some (shellProg (firstToken text) (argument text)) ∧
      ∀ token ∈ [] :: ["help", "ps", "kill", "echo", "clear", "crash"].map cstr, ∀ a,
        dispatch line = some (shellProg token a) → firstToken text = token := by
  obtain ⟨rest, harg, hwith⟩ := dispatchWith_eq hline
  have hcmd : dispatchCommand line = some (commandOf (firstToken text) rest) :=
    hwith commands (List.Perm.refl _)
  have hblank : (∀ c ∈ text, isBlank c = true) ↔ firstToken text = [] := by
    rw [firstToken_eq_nil, List.dropWhile_eq_nil_iff]
  have hsome : (∃ c ∈ text, isBlank c = false) ↔ firstToken text ≠ [] := by
    rw [ne_eq, ← hblank]
    simp
  obtain ⟨hhelp, hps, hkill, hecho, hclear, hcrash, hunknown⟩ :=
    commandOf_iff (firstToken text) rest
  refine ⟨rest, harg, by rwa [hcmd, Option.some_inj], by rwa [hcmd, Option.some_inj],
    fun arg => by rw [hcmd, Option.some_inj, hkill],
    fun arg => by rw [hcmd, Option.some_inj, hecho],
    by rwa [hcmd, Option.some_inj], by rwa [hcmd, Option.some_inj], ?_, ?_, ?_, ?_,
    dispatch_eq hline, dispatch_eq ⟨hline.1, [], rfl⟩, ?_⟩
  · rw [hcmd, Option.some_inj, hblank, commandOf_eq_nothing]
  · rw [hcmd, Option.some_inj, hunknown, hsome]
  · intro table hperm
    rw [hwith table hperm, hcmd]
  · exact ⟨_, hcmd, by rw [dispatch, hcmd, Option.bind_some]⟩
  · intro token htoken a hprog
    rw [dispatch_eq hline, Option.some_inj] at hprog
    exact shellProg_inj htoken hprog

/-- A `kill` between blanks: `dispatch` calls `sys_kill` for process 1. -/
theorem dispatch_grammar_kill :
    (∃ arg, CString (cstr "1 ") arg ∧
      dispatchCommand (literal " kill \t1 ") = some (.kill arg)) ∧
      dispatch (literal " kill \t1 ") = some (killProg 1#32) := by
  obtain ⟨rest, harg, -, -, hkill, -, -, -, -, -, -, -, hdispatch, -⟩ :=
    dispatch_grammar (cString_literal " kill \t1 " (by decide))
  have htoken : firstToken (cstr " kill \t1 ") = cstr "kill" := by decide
  have hargument : argument (cstr " kill \t1 ") = cstr "1 " := by decide
  rw [hargument] at harg
  refine ⟨⟨rest, harg, (hkill rest).2 ⟨htoken, rfl⟩⟩, ?_⟩
  have hone : decValue ((cstr "1 ").takeWhile isDigit) = 1 := by decide
  have hcmd : commandOf (cstr "kill") (cstr "1 ") = .kill (cstr "1 ") :=
    ((commandOf_iff _ _).2.2.1 _).2 ⟨rfl, rfl⟩
  rw [hdispatch, htoken, hargument, shellProg, hcmd, Command.calls, if_neg (by decide), hone]

end RingNova
