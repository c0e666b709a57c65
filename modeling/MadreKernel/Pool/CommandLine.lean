import MadreKernel.Lib.CommandLine
import MadreKernel.Lib.Decimal

/-!
# The command line of a worker on Windows

`worker_command_line` writes the executable and the arguments of a worker into one text, of which
the process of the worker makes its arguments again.  An argument with spaces, tabs or quotes is
put into quotes: its backslashes are doubled before a quote, and written as they are elsewhere.
What has been written of such an argument is read as the part of it that has been passed, but for
the backslashes that are pending.
-/

namespace Windows

open CommandLine

/-- `MultiByteToWideChar` for UTF-8: the number of characters (0 when it fails), the error that it
reports, and the characters that it writes into a buffer of a size. -/
structure Conversion where
  count : Bytes → Nat
  lastError : Bytes → Nat
  write : Bytes → Nat → Wide

def utf8ToWide (api : Conversion) (value : Bytes) : Except Bytes Wide :=
  if value = [] then .ok []
  else if api.count value = 0 then
    .error (Bytes.ofString "worker argument is not valid UTF-8: Windows error "
      ++ Bytes.ofString (toString (api.lastError value)))
  else if (api.write value (api.count value)).length ≠ api.count value then
    .error (Bytes.ofString "convert worker argument to Windows UTF-16 failed")
  else .ok (api.write value (api.count value))

/-- The loop of `quote_windows_argument`, with the text that has been written and the number of
backslashes that are pending, and what follows it. -/
def quoteLoop (result : Wide) (slashes : Nat) : Wide → Wide
  | [] => result ++ List.replicate (2 * slashes) backslash ++ [quote]
  | ch :: value =>
      if ch = backslash then quoteLoop result (slashes + 1) value
      else if ch = quote then
        quoteLoop (result ++ List.replicate (2 * slashes + 1) backslash ++ [quote]) 0 value
      else quoteLoop (result ++ List.replicate slashes backslash ++ [ch]) 0 value

def quoteWindowsArgument (value : Wide) : Wide :=
  if value = [] then [quote, quote]
  else if value.all fun ch => ch ≠ space && ch ≠ tab && ch ≠ quote then value
  else quoteLoop [quote] 0 value

/-- How a worker is launched on Windows, where paths are texts of 16-bit characters. -/
structure WorkerLaunchSpec where
  executable : Wide
  arguments : List Bytes

def workerCommandLine (api : Conversion) (launch : WorkerLaunchSpec) : Except Bytes Wide :=
  launch.arguments.foldlM
    (fun result argument => do
      let wide ← utf8ToWide api argument
      return result ++ [space] ++ quoteWindowsArgument wide)
    (quoteWindowsArgument launch.executable)

/-! ### Quoted arguments -/

/-- What has been written is read as a part of an argument inside quotes. -/
def ReadAs (result x : Wide) : Prop :=
  ∀ l, parse none false 0 (result ++ l) = parse (some x) true 0 l

theorem readAs_quote :
  ReadAs [quote] []
  := fun l => parse_quote_open 0 l

theorem ReadAs.char {result x : Wide} (h : ReadAs result x) (n : Nat) {ch : UInt16}
    (hslash : ch ≠ backslash) (hquote : ch ≠ quote) :
  ReadAs (result ++ List.replicate n backslash ++ [ch]) (x ++ List.replicate n backslash ++ [ch])
  := by
  intro l
  rw [List.append_assoc, List.append_assoc, h, List.singleton_append, parse_slashes, Nat.zero_add,
    parse_char hslash hquote (Or.inl rfl), withSlashes_some]

theorem ReadAs.quote {result x : Wide} (h : ReadAs result x) (n : Nat) :
  ReadAs (result ++ List.replicate (2 * n + 1) backslash ++ [CommandLine.quote])
    (x ++ List.replicate n backslash ++ [CommandLine.quote])
  := by
  intro l
  rw [List.append_assoc, List.append_assoc, h, List.singleton_append, parse_slashes, Nat.zero_add,
    parse_quote_odd, withSlashes_some]

theorem ReadAs.close {result x : Wide} (h : ReadAs result x) (n : Nat) {l : Wide} (hl : Ends l) :
  parse none false 0 (result ++ List.replicate (2 * n) backslash ++ [CommandLine.quote] ++ l)
    = (x ++ List.replicate n backslash) :: arguments l
  := by
  rw [List.append_assoc, List.append_assoc, h, List.singleton_append, parse_slashes, Nat.zero_add,
    parse_quote_close n hl, parse_ends hl, withSlashes_some, ended_some, List.replicate_zero,
    List.append_nil, List.singleton_append]

/-- The loop writes what is read as the argument. -/
theorem parse_quoteLoop {result x : Wide} (h : ReadAs result x) (n : Nat) (value : Wide) {l : Wide}
    (hl : Ends l) :
  parse none false 0 (quoteLoop result n value ++ l)
    = (x ++ List.replicate n backslash ++ value) :: arguments l
  := by
  induction value generalizing result x n with
  | nil => rw [quoteLoop, h.close n hl, List.append_nil]
  | cons ch value ih =>
      rw [quoteLoop]
      split_ifs with hslash hquote
      · rw [ih h, hslash, List.replicate_succ']
        simp
      · rw [ih (h.quote n), hquote]
        simp
      · rw [ih (h.char n hslash hquote)]
        simp

/-- An argument without spaces, tabs and quotes. -/
theorem all_plain_iff (value : Wide) :
  (value.all fun ch => ch ≠ space && ch ≠ tab && ch ≠ quote) = true
    ↔ ∀ ch ∈ value, ch ≠ space ∧ ch ≠ tab ∧ ch ≠ quote
  := by
  simp [and_assoc]

/-- A quoted argument is read as the argument. -/
theorem arguments_quote (value : Wide) {l : Wide} (hl : Ends l) :
  arguments (quoteWindowsArgument value ++ l) = value :: arguments l
  := by
  rw [quoteWindowsArgument]
  split_ifs with hempty hplain
  · rw [hempty]
    exact readAs_quote.close 0 hl
  · exact arguments_plain hempty ((all_plain_iff value).mp hplain) hl
  · exact parse_quoteLoop readAs_quote 0 value hl

/-! ### The name of the program -/

/-- What has been written is taken as a part of the name of the program inside quotes. -/
def NamedAs (result x : Wide) : Prop :=
  ∀ l, programName [] false (result ++ l) = programName x true l

/-- The loop writes what is taken as the name, when it has no quote and no backslash at its end. -/
theorem programName_quoteLoop {result x : Wide} (h : NamedAs result x) (n : Nat) {value : Wide}
    (hquote : quote ∉ value) (hlast : value.getLast? ≠ some backslash)
    (hn : value = [] → n = 0) (l : Wide) :
  programName [] false (quoteLoop result n value ++ l)
    = programName (x ++ List.replicate n backslash ++ value) false l
  := by
  induction value generalizing result x n with
  | nil =>
      rw [quoteLoop, hn rfl, Nat.mul_zero, List.replicate_zero, List.append_nil, List.append_assoc,
        h, List.singleton_append, programName_quote, List.append_nil, List.append_nil]
      rfl
  | cons ch value ih =>
      obtain ⟨hch, hvalue⟩ := not_or.mp (mt List.mem_cons.mpr hquote)
      rw [quoteLoop, if_neg (Ne.symm hch)]
      split_ifs with hslash
      · cases value with
        | nil => exact absurd (congrArg some hslash) hlast
        | cons next value =>
            rw [ih h (n + 1) hvalue hlast (fun hnil => nomatch hnil), hslash, List.replicate_succ']
            simp
      · have hnamed : NamedAs (result ++ List.replicate n backslash ++ [ch])
            (x ++ List.replicate n backslash ++ [ch]) := by
          intro l
          have hne : quote ≠ backslash := by decide
          have hnotMem : quote ∉ List.replicate n backslash ++ [ch] := by
            simp [List.mem_replicate, hch, hne]
          rw [List.append_assoc, List.append_assoc, h, ← List.append_assoc,
            programName_append hnotMem (Or.inl rfl), List.append_assoc]
        have hlast' : value.getLast? ≠ some backslash := by
          intro heq
          apply hlast
          rw [List.getLast?_cons, heq, Option.getD_some]
        rw [ih hnamed 0 hvalue hlast' (fun _ => rfl)]
        simp

/-- An executable without quotes and without a backslash at its end is taken as the name. -/
theorem programName_quoteWindowsArgument {value : Wide} (hquote : quote ∉ value)
    (hlast : value.getLast? ≠ some backslash) (l : Wide) :
  programName [] false (quoteWindowsArgument value ++ l) = programName value false l
  := by
  rw [quoteWindowsArgument]
  split_ifs with hempty hplain
  · rw [hempty]
    rfl
  · have hsep : ∀ ch ∈ value, ¬ (ch = space ∨ ch = tab) := by
      intro ch hch
      obtain ⟨hspace, htab, -⟩ := (all_plain_iff value).mp hplain ch hch
      exact not_or.mpr ⟨hspace, htab⟩
    rw [programName_append hquote (Or.inr hsep), List.nil_append]
  · have hnamed : NamedAs [quote] [] := fun l => programName_quote [] l
    rw [programName_quoteLoop hnamed 0 hquote hlast fun _ => rfl]
    rfl

/-! ### The whole line -/

/-- A command line, from the executable and the arguments as texts of 16-bit characters. -/
def commandLine (executable : Wide) (args : List Wide) : Wide :=
  quoteWindowsArgument executable ++ args.flatMap fun arg => space :: quoteWindowsArgument arg

/-- `worker_command_line` converts the arguments and appends them one by one. -/
theorem workerCommandLine_eq {api : Conversion} {launch : WorkerLaunchSpec} {args : List Wide}
    (h : launch.arguments.mapM (utf8ToWide api) = .ok args) :
  workerCommandLine api launch = .ok (commandLine launch.executable args)
  := by
  obtain ⟨executable, arguments⟩ := launch
  dsimp only at h ⊢
  rw [workerCommandLine, commandLine]
  dsimp only
  generalize quoteWindowsArgument executable = result
  induction arguments generalizing result args with
  | nil =>
      cases h
      simp
      rfl
  | cons argument arguments ih =>
      rw [List.mapM_cons] at h
      rw [List.foldlM_cons]
      cases hwide : utf8ToWide api argument with
      | error what =>
          rw [hwide] at h
          contradiction
      | ok wide =>
          cases htail : arguments.mapM (utf8ToWide api) with
          | error what =>
              rw [hwide, htail] at h
              contradiction
          | ok args' =>
              rw [hwide, htail] at h
              cases h
              have hassoc (rest : Wide) : result ++ (space :: quoteWindowsArgument wide ++ rest)
                  = result ++ [space] ++ quoteWindowsArgument wide ++ rest := by simp
              rw [List.flatMap_cons, hassoc]
              exact ih htail (result ++ [space] ++ quoteWindowsArgument wide)

theorem ends_flatMap (args : List Wide) :
  Ends (args.flatMap fun arg => space :: quoteWindowsArgument arg)
  := by
  cases args with
  | nil => exact fun ch hch => nomatch hch
  | cons arg args =>
      intro ch hch
      cases hch
      exact Or.inl rfl

theorem arguments_flatMap (args : List Wide) :
  arguments (args.flatMap fun arg => space :: quoteWindowsArgument arg) = args
  := by
  induction args with
  | nil => rfl
  | cons arg args ih =>
      rw [List.flatMap_cons, List.cons_append, arguments_separator (Or.inl rfl),
        arguments_quote arg (ends_flatMap args), ih]

theorem notMem_quoteLoop {c : UInt16} (hquote : c ≠ quote) (hslash : c ≠ backslash)
    {result value : Wide} (hresult : c ∉ result) (n : Nat) (hvalue : c ∉ value) :
  c ∉ quoteLoop result n value
  := by
  induction value generalizing result n with
  | nil => simp [quoteLoop, hresult, hquote, List.mem_replicate, hslash]
  | cons ch value ih =>
      obtain ⟨hch, hrest⟩ := not_or.mp (mt List.mem_cons.mpr hvalue)
      rw [quoteLoop]
      split_ifs
      all_goals
        apply ih _ _ hrest
        simp [hresult, hquote, hch, List.mem_replicate, hslash]

/-- A command line holds a NUL only where a part of it does. -/
theorem notMem_commandLine {executable : Wide} {args : List Wide} (hexecutable : 0 ∉ executable)
    (hargs : ∀ arg ∈ args, 0 ∉ arg) :
  0 ∉ commandLine executable args
  := by
  have hquoted : ∀ value, 0 ∉ value → 0 ∉ quoteWindowsArgument value := by
    intro value hvalue
    rw [quoteWindowsArgument]
    split_ifs
    · decide
    · exact hvalue
    · exact notMem_quoteLoop (by decide) (by decide) (by decide) 0 hvalue
  simp only [commandLine, List.mem_append, List.mem_flatMap, List.mem_cons]
  rintro (hmem | ⟨arg, harg, hmem | hmem⟩)
  · exact hquoted executable hexecutable hmem
  · exact absurd hmem (by decide)
  · exact hquoted arg (hargs arg harg) hmem

/-- The process of a worker gets the executable and exactly the arguments of the launch, by the
rules for all arguments and by the rules that take the first one as the name of the program. -/
theorem command_line_round_trip
    (api : Conversion) (launch : WorkerLaunchSpec) (args : List Wide)
    (hargs : launch.arguments.mapM (utf8ToWide api) = .ok args)
    (hquote : quote ∉ launch.executable) (hslash : launch.executable.getLast? ≠ some backslash) :
  ∃ line, workerCommandLine api launch = .ok line
    ∧ arguments line = launch.executable :: args
    ∧ programArguments line = launch.executable :: args
    ∧ (0 ∉ launch.executable → (∀ arg ∈ args, 0 ∉ arg) → 0 ∉ line)
  := by
  have hends := ends_flatMap args
  use commandLine launch.executable args, workerCommandLine_eq hargs
  refine ⟨?_, ?_, notMem_commandLine⟩
  · rw [commandLine, arguments_quote _ hends, arguments_flatMap]
  · obtain ⟨hname, hrest⟩ := programName_ends hends launch.executable
    rw [programArguments, commandLine, programName_quoteWindowsArgument hquote hslash, hname, hrest,
      arguments_flatMap]

/-- The conversion of ASCII text. -/
def asciiConversion : Conversion where
  count := List.length
  lastError _ := 0
  write value _ := value.map UInt8.toUInt16

def sampleLaunch : WorkerLaunchSpec where
  executable := (Bytes.ofString "C:\\Program Files\\worker.exe").map UInt8.toUInt16
  arguments := ["--name", "", "say \\\"hi\\", "a b\\"].map Bytes.ofString

theorem command_line_round_trip_sample :
  ∃ line, workerCommandLine asciiConversion sampleLaunch = .ok line
    ∧ arguments line = sampleLaunch.executable
      :: sampleLaunch.arguments.map (·.map UInt8.toUInt16)
  := by
  obtain ⟨line, hline, harguments, -⟩ := command_line_round_trip asciiConversion sampleLaunch
    (sampleLaunch.arguments.map (·.map UInt8.toUInt16)) rfl (by decide) (by decide)
  use line, hline, harguments

end Windows
