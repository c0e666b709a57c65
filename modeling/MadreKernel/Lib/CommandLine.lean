import Mathlib.Data.List.Basic

/-!
# Command lines of Windows processes

A command line is one text of 16-bit characters.  A process takes it apart by the rules of the
Microsoft C runtime: spaces and tabs outside quotes separate arguments, backslashes mean something
only before a quote, and a doubled quote inside quotes is a quote.  The name of the program, which
is the first argument, may be taken by simpler rules, under which backslashes mean nothing.
-/

namespace CommandLine

/-- A text of 16-bit characters. -/
abbrev Wide := List UInt16

abbrev space : UInt16 := 32
abbrev tab : UInt16 := 9
abbrev quote : UInt16 := 34
abbrev backslash : UInt16 := 92

/-- The argument that is being read, if there is one, and some backslashes. -/
def withSlashes (current : Option Wide) (n : Nat) : Wide :=
  current.getD [] ++ List.replicate n backslash

/-- The argument that ends after some backslashes, if there is one. -/
def ended (current : Option Wide) (slashes : Nat) : List Wide :=
  if current = none ∧ slashes = 0 then [] else [withSlashes current slashes]

/-- The arguments of the rest of a command line, after a part of an argument and backslashes that
have been read and whose meaning is open. -/
def parse (current : Option Wide) (quoted : Bool) (slashes : Nat) : Wide → List Wide
  | [] => ended current slashes
  | ch :: rest =>
      if ch = backslash then parse current quoted (slashes + 1) rest
      else if ch = quote then
        if slashes % 2 = 1 then
          parse (some (withSlashes current (slashes / 2) ++ [quote])) quoted 0 rest
        else if quoted then
          match rest with
          | [] => [withSlashes current (slashes / 2)]
          | next :: rest =>
              if next = quote then
                parse (some (withSlashes current (slashes / 2) ++ [quote])) true 0 rest
              else parse (some (withSlashes current (slashes / 2))) false 0 (next :: rest)
        else parse (some (withSlashes current (slashes / 2))) true 0 rest
      else if (ch = space ∨ ch = tab) ∧ quoted = false then
        ended current slashes ++ parse none false 0 rest
      else parse (some (withSlashes current slashes ++ [ch])) quoted 0 rest

/-- The arguments of a command line. -/
def arguments (line : Wide) : List Wide := parse none false 0 line

/-- The name of the program, and the rest of the command line. -/
def programName (name : Wide) (quoted : Bool) : Wide → Wide × Wide
  | [] => (name, [])
  | ch :: rest =>
      if ch = quote then programName name (!quoted) rest
      else if (ch = space ∨ ch = tab) ∧ quoted = false then (name, rest)
      else programName (name ++ [ch]) quoted rest

/-- The arguments of a command line whose first one is the name of the program. -/
def programArguments (line : Wide) : List Wide :=
  (programName [] false line).1 :: arguments (programName [] false line).2

example : arguments [34, 97, 92, 92, 34, 32, 98, 92, 34, 99] = [[97, 92], [98, 34, 99]] := by
  decide

/-- A text is at its end, or at a separator. -/
def Ends (l : Wide) : Prop := ∀ ch ∈ l.head?, ch = space ∨ ch = tab

/-! ### The rules -/

@[simp]
theorem withSlashes_some (x : Wide) (n : Nat) :
  withSlashes (some x) n = x ++ List.replicate n backslash
  := rfl

@[simp]
theorem ended_none :
  ended none 0 = []
  := rfl

theorem ended_some (x : Wide) (slashes : Nat) :
  ended (some x) slashes = [x ++ List.replicate slashes backslash]
  := rfl

variable {current : Option Wide} {quoted : Bool} {slashes : Nat}

/-- The meaning of a backslash is open until the character after it. -/
theorem parse_slash (l : Wide) :
  parse current quoted slashes (backslash :: l) = parse current quoted (slashes + 1) l
  := by
  rw [parse.eq_def]
  dsimp only
  rw [if_pos rfl]

theorem parse_slashes (n : Nat) (l : Wide) :
  parse current quoted slashes (List.replicate n backslash ++ l)
    = parse current quoted (slashes + n) l
  := by
  induction n generalizing slashes with
  | zero => rfl
  | succ n ih =>
      rw [List.replicate_succ, List.cons_append, parse_slash, ih, Nat.add_assoc, Nat.add_comm 1 n]

/-- Backslashes before another character are literal. -/
theorem parse_char {ch : UInt16} (hslash : ch ≠ backslash) (hquote : ch ≠ quote)
    (hsep : quoted = true ∨ ¬ (ch = space ∨ ch = tab)) (l : Wide) :
  parse current quoted slashes (ch :: l)
    = parse (some (withSlashes current slashes ++ [ch])) quoted 0 l
  := by
  have hnot : ¬ ((ch = space ∨ ch = tab) ∧ quoted = false) := by
    rintro ⟨hch, rfl⟩
    exact hsep.elim Bool.false_ne_true fun h => h hch
  rw [parse.eq_def]
  dsimp only
  rw [if_neg hslash, if_neg hquote, if_neg hnot]

/-- A quote after an odd number of backslashes is literal. -/
theorem parse_quote_odd (n : Nat) (l : Wide) :
  parse current quoted (2 * n + 1) (quote :: l)
    = parse (some (withSlashes current n ++ [quote])) quoted 0 l
  := by
  have hodd : (2 * n + 1) % 2 = 1 := by omega
  have hhalf : (2 * n + 1) / 2 = n := by omega
  rw [parse.eq_def]
  dsimp only
  rw [if_neg (by decide), if_pos rfl, if_pos hodd, hhalf]

/-- A quote after an even number of backslashes opens a quoted part. -/
theorem parse_quote_open (n : Nat) (l : Wide) :
  parse current false (2 * n) (quote :: l) = parse (some (withSlashes current n)) true 0 l
  := by
  have heven : (2 * n) % 2 ≠ 1 := by omega
  have hhalf : (2 * n) / 2 = n := by omega
  rw [parse.eq_def]
  dsimp only
  rw [if_neg (by decide), if_pos rfl, if_neg heven, if_neg Bool.false_ne_true, hhalf]

/-- A quote after an even number of backslashes closes a quoted part, unless it is doubled. -/
theorem parse_quote_close (n : Nat) {l : Wide} (hl : Ends l) :
  parse current true (2 * n) (quote :: l) = parse (some (withSlashes current n)) false 0 l
  := by
  have heven : (2 * n) % 2 ≠ 1 := by omega
  have hhalf : (2 * n) / 2 = n := by omega
  rw [parse.eq_def]
  dsimp only
  rw [if_neg (by decide), if_pos rfl, if_neg heven, if_pos rfl, hhalf]
  cases l with
  | nil => rw [parse, ended_some, List.replicate_zero, List.append_nil]
  | cons next l =>
      have hnext : next ≠ quote := by
        rintro rfl
        exact absurd (hl quote rfl) (by decide)
      dsimp only
      rw [if_neg hnext]

/-- A space or a tab outside quotes ends an argument. -/
theorem parse_separator {ch : UInt16} (h : ch = space ∨ ch = tab) (l : Wide) :
  parse current false slashes (ch :: l) = ended current slashes ++ arguments l
  := by
  have hslash : ch ≠ backslash := by
    rintro rfl
    exact absurd h (by decide)
  have hquote : ch ≠ quote := by
    rintro rfl
    exact absurd h (by decide)
  rw [parse.eq_def]
  dsimp only
  rw [if_neg hslash, if_neg hquote, if_pos ⟨h, rfl⟩]
  rfl

theorem arguments_separator {ch : UInt16} (h : ch = space ∨ ch = tab) (l : Wide) :
  arguments (ch :: l) = arguments l
  := parse_separator h l

/-- An argument outside quotes ends with the text, or at a separator. -/
theorem parse_ends {l : Wide} (hl : Ends l) :
  parse current false slashes l = ended current slashes ++ arguments l
  := by
  cases l with
  | nil => rw [parse, arguments, parse, ended_none, List.append_nil]
  | cons ch l => rw [arguments_separator (hl ch rfl), parse_separator (hl ch rfl)]

/-- Characters that are neither separators nor quotes are read as they are, when there are any or
an argument has begun. -/
theorem parse_plain {value : Wide} (h : ∀ ch ∈ value, ch ≠ space ∧ ch ≠ tab ∧ ch ≠ quote)
    (hbegun : value = [] → current = none → slashes ≠ 0) {l : Wide} (hl : Ends l) :
  parse current false slashes (value ++ l)
    = (withSlashes current slashes ++ value) :: arguments l
  := by
  induction value generalizing current slashes with
  | nil =>
      have hnot : ¬ (current = none ∧ slashes = 0) := fun hnone => hbegun rfl hnone.1 hnone.2
      rw [List.nil_append, List.append_nil, parse_ends hl, ended, if_neg hnot,
        List.singleton_append]
  | cons ch value ih =>
      obtain ⟨hspace, htab, hquote⟩ := h ch List.mem_cons_self
      have hvalue := fun c hc => h c (List.mem_cons_of_mem ch hc)
      rw [List.cons_append]
      by_cases hslash : ch = backslash
      · rw [hslash, parse_slash, ih hvalue fun _ _ => Nat.succ_ne_zero _, withSlashes,
          List.replicate_succ']
        simp [withSlashes]
      · rw [parse_char hslash hquote (Or.inr (not_or.mpr ⟨hspace, htab⟩)),
          ih hvalue fun _ hnone => absurd hnone (Option.some_ne_none _)]
        simp

/-- A text of such characters that is not empty is an argument. -/
theorem arguments_plain {value : Wide} (hne : value ≠ [])
    (h : ∀ ch ∈ value, ch ≠ space ∧ ch ≠ tab ∧ ch ≠ quote) {l : Wide} (hl : Ends l) :
  arguments (value ++ l) = value :: arguments l
  := parse_plain h (fun hnil => absurd hnil hne) hl

/-! ### The name of the program -/

/-- Characters of the name. -/
theorem programName_append {name x : Wide} (hquote : quote ∉ x)
    (hsep : quoted = true ∨ ∀ ch ∈ x, ¬ (ch = space ∨ ch = tab)) (l : Wide) :
  programName name quoted (x ++ l) = programName (name ++ x) quoted l
  := by
  induction x generalizing name with
  | nil => rw [List.nil_append, List.append_nil]
  | cons ch x ih =>
      obtain ⟨hch, hx⟩ := not_or.mp (mt List.mem_cons.mpr hquote)
      have hnot : ¬ ((ch = space ∨ ch = tab) ∧ quoted = false) := by
        rintro ⟨h, rfl⟩
        exact hsep.elim Bool.false_ne_true fun hall => hall ch List.mem_cons_self h
      rw [List.cons_append, programName, if_neg (Ne.symm hch), if_neg hnot,
        ih hx (hsep.imp_right fun hall ch hmem => hall ch (List.mem_cons_of_mem _ hmem)),
        List.append_assoc, List.singleton_append]

theorem programName_quote (name l : Wide) :
  programName name quoted (quote :: l) = programName name (!quoted) l
  := by
  rw [programName, if_pos rfl]

/-- The name ends with the text, or at a separator. -/
theorem programName_ends {l : Wide} (hl : Ends l) (name : Wide) :
  (programName name false l).1 = name ∧ arguments (programName name false l).2 = arguments l
  := by
  cases l with
  | nil => exact ⟨rfl, rfl⟩
  | cons ch l =>
      have hch := hl ch rfl
      have hquote : ch ≠ quote := by
        rintro rfl
        exact absurd hch (by decide)
      rw [programName, if_neg hquote, if_pos ⟨hch, rfl⟩, arguments_separator hch]
      exact ⟨rfl, rfl⟩

end CommandLine
