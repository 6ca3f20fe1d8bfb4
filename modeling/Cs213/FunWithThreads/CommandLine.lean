import Mathlib

set_option relaxedAutoImplicit false
set_option autoImplicit false

/-!
# The command line

`FunWithThreads.run` reads the number of reads and a mode from its arguments. Whatever is wrong with
them is to be reported by a `UsageException`.

## Main definitions

* `CommandLine.contains`, `CommandLine.intValue` — looking for an option, and for its value.
* `CommandLine.run` — reading the arguments, and making the reads.
* `CommandLine.UsageLaw` — the reads are made, or there is a `UsageException`.
* `CommandLine.Fits` — the numbers among the arguments are in the range they are used in.

## Main results

* `CommandLine.perform_eq` — what `run` does, for all arguments.
* `CommandLine.usageLaw_iff` — the law holds exactly if the numbers fit.

## Implementation notes

An argument stands for an option if it is a prefix of it, so that the empty string stands for all of
them. Which characters are digits is up to `Character.digit`, and depends on the version of Unicode;
it is a parameter.
-/

namespace CommandLine

/-! ## Java -/

/-- A `char`. -/
abbrev JChar := BitVec 16

/-- A `String`. -/
abbrev JString := List JChar

/-- A string of these characters. -/
def ascii (s : List Char) : JString := s.map fun c => BitVec.ofNat 16 c.toNat

/-- The exceptions of `run`. -/
inductive Exn
  | usage
  | arrayIndexOutOfBounds
  | numberFormat
  | negativeArraySize
  | illegalArgument
  deriving DecidableEq, Repr

/-- `args[i]`. -/
def getArg (args : List JString) (i : ℕ) : Except Exn JString :=
  match args[i]? with
  | some s => .ok s
  | none => .error .arrayIndexOutOfBounds

section Parse

variable (digit : JChar → Option ℕ)

/-- The number with these digits, if there are any and nothing else. -/
def magnitude : JString → Option ℕ
  | [] => none
  | s => s.foldlM (fun v c => (digit c).map (10 * v + ·)) 0

/-- The number that a string stands for: a sign or none, and digits. -/
def signed : JString → Option ℤ
  | [] => none
  | c :: s =>
    if c = 0x2d then (magnitude digit s).map fun v => -(v : ℤ)
    else if c = 0x2b then (magnitude digit s).map fun v => (v : ℤ)
    else (magnitude digit (c :: s)).map fun v => (v : ℤ)

/-- `Integer.valueOf`: the number has to be one of an `int`. -/
def valueOf (s : JString) : Except Exn ℤ :=
  match signed digit s with
  | some v => if -2 ^ 31 ≤ v ∧ v < 2 ^ 31 then .ok v else .error .numberFormat
  | none => .error .numberFormat

end Parse

/-! ## Options -/

/-- The types of options. -/
inductive OptionType
  | boolean
  | integer
  deriving DecidableEq

/-- `Args.Option`. -/
structure ArgsOption where
  string : JString
  type : OptionType
  defaultValue : Option ℤ

/-- Select sequential implementation. -/
def SEQUENTIAL : ArgsOption :=
  ⟨ascii ['-', 's', 'e', 'q', 'u', 'e', 'n', 't', 'i', 'a', 'l'], .boolean, none⟩

/-- Select thread-based implementation. -/
def THREADS : ArgsOption := ⟨ascii ['-', 't', 'h', 'r', 'e', 'a', 'd', 's'], .boolean, none⟩

/-- Select executor implementation where n is number of threads. -/
def EXECUTOR : ArgsOption := ⟨ascii ['-', 'e', 'x', 'e', 'c', 'u', 't', 'o', 'r'], .integer, none⟩

/-- Number of reads to perform. -/
def COUNT : ArgsOption := ⟨ascii ['-', 'c', 'o', 'u', 'n', 't'], .integer, some 1000⟩

/-- `option.string.startsWith (arg)`. -/
def ArgsOption.matches (option : ArgsOption) (arg : JString) : Bool := arg.isPrefixOf option.string

/-- `contains`. -/
def contains (args : List JString) (option : ArgsOption) : Bool := args.any option.matches

section Args

variable (digit : JChar → Option ℕ)

/-- `Integer.valueOf (args[i+1])`, and what is caught. -/
def valueAt (args : List JString) (i : ℕ) : Except Exn ℤ :=
  tryCatch (do valueOf digit (← getArg args (i + 1))) fun
    | .arrayIndexOutOfBounds => throw .usage
    | .numberFormat => throw .usage
    | e => throw e

/-- `intValue`: the value behind the first argument that stands for the option, or the default. -/
def intValue (args : List JString) (option : ArgsOption) : Except Exn ℤ :=
  match option.type with
  | .integer =>
    match args.findIdx? option.matches with
    | some i => valueAt digit args i
    | none =>
      match option.defaultValue with
      | some v => .ok v
      | none => .error .usage
  | .boolean => .error .usage

/-! ## Reads -/

/-- The three modes. -/
inductive Mode
  | sequential
  | threaded
  | executor
  deriving DecidableEq, Repr

/-- A read: the mode it is made in, and the number of the request. -/
structure Read where
  mode : Mode
  req : ℕ
  deriving DecidableEq, Repr

/-- Code that makes reads and throws exceptions. -/
abbrev Java := ExceptT Exn (StateM (List Read))

/-- A read is made, or handed to a thread that makes it. -/
def read (mode : Mode) (req : ℕ) : Java Unit := modify (· ++ [⟨mode, req⟩])

/-- The loop in which the reads are made or handed to the threads. -/
def readAll (mode : Mode) (readCount : ℤ) : Java Unit :=
  (List.range readCount.toNat).forM (read mode)

/-- `sequential`. -/
def sequential (readCount : ℤ) : Java Unit := readAll .sequential readCount

/-- `threaded`. -/
def threaded (readCount : ℤ) : Java Unit := readAll .threaded readCount

/-- `Executors.newFixedThreadPool`. -/
def newFixedThreadPool (threadCount : ℤ) : Java Unit :=
  if threadCount ≤ 0 then throw .illegalArgument else pure ()

/-- `executor`. -/
def executor (readCount threadCount : ℤ) : Java Unit := do
  newFixedThreadPool threadCount
  readAll .executor readCount

/-- `new int[readCount]`. -/
def newIntArray (readCount : ℤ) : Java Unit :=
  if readCount < 0 then throw .negativeArraySize else pure ()

/-- `run`, but for what it prints. -/
def run (args : List JString) : Java Unit := do
  let readCount ← ofExcept (intValue digit args COUNT)
  newIntArray readCount
  if contains args SEQUENTIAL then
    sequential readCount
  else if contains args THREADS then
    threaded readCount
  else if contains args EXECUTOR then
    let threadCount ← ofExcept (intValue digit args EXECUTOR)
    executor readCount threadCount
  else
    throw .usage

/-- How `run` ends, and the reads that have been made. -/
def perform (args : List JString) : Except Exn Unit × List Read := (run digit args).run.run []

end Args

/-! ## The law -/

/-- The reads of a mode. -/
def reads (mode : Mode) (readCount : ℤ) : List Read :=
  (List.range readCount.toNat).map fun req => ⟨mode, req⟩

/-- **The law**: `run` makes all reads in one mode and returns, or it throws a `UsageException` and
no read has been made. -/
def UsageLaw (digit : JChar → Option ℕ) (args : List JString) : Prop :=
  (∃ mode readCount, intValue digit args COUNT = .ok readCount ∧ 0 ≤ readCount ∧
    perform digit args = (.ok (), reads mode readCount)) ∨
  perform digit args = (.error .usage, [])

/-- The numbers fit: the number of reads is not negative and, if the executor is used, the number
of threads is positive. -/
structure Fits (digit : JChar → Option ℕ) (args : List JString) : Prop where
  count : ∀ readCount, intValue digit args COUNT = .ok readCount → 0 ≤ readCount
  threads : ∀ readCount threadCount, intValue digit args COUNT = .ok readCount →
    contains args SEQUENTIAL = false → contains args THREADS = false →
    contains args EXECUTOR = true → intValue digit args EXECUTOR = .ok threadCount →
    0 < threadCount

section Law

variable {digit : JChar → Option ℕ} {args : List JString}

/-- The reads that a loop adds. -/
lemma forM_read (mode : Mode) (l : List ℕ) (before : List Read) :
    ((l.forM (read mode)).run.run before : Except Exn Unit × List Read) =
      (.ok (), before ++ l.map fun req => ⟨mode, req⟩) := by
  induction l generalizing before with
  | nil => simp; rfl
  | cons req l ih =>
    show (l.forM (read mode)).run.run (before ++ [⟨mode, req⟩]) = _
    rw [ih, List.append_assoc]
    rfl

lemma run_readAll (mode : Mode) (readCount : ℤ) :
    ((readAll mode readCount).run.run [] : Except Exn Unit × List Read) =
      (.ok (), reads mode readCount) :=
  forM_read mode _ []

/-- A value that is there is used. -/
lemma ofExcept_bind {α β : Type} (a : α) (f : α → Java β) :
    (ofExcept (Except.ok a : Except Exn α) >>= f) = f a := rfl

/-- **What `run` does.** -/
theorem perform_eq : perform digit args =
    match intValue digit args COUNT with
    | .error e => (.error e, [])
    | .ok readCount =>
      if readCount < 0 then (.error .negativeArraySize, [])
      else if contains args SEQUENTIAL then (.ok (), reads .sequential readCount)
      else if contains args THREADS then (.ok (), reads .threaded readCount)
      else if contains args EXECUTOR then
        match intValue digit args EXECUTOR with
        | .error e => (.error e, [])
        | .ok threadCount =>
          if threadCount ≤ 0 then (.error .illegalArgument, [])
          else (.ok (), reads .executor readCount)
      else (.error .usage, []) := by
  unfold perform run
  cases hcount : intValue digit args COUNT with
  | error e => rfl
  | ok readCount =>
    rw [ofExcept_bind]
    by_cases hneg : readCount < 0
    · simp only [newIntArray, if_pos hneg]
      rfl
    · simp only [newIntArray, if_neg hneg]
      by_cases hseq : contains args SEQUENTIAL
      · simp only [if_pos hseq]
        exact run_readAll .sequential readCount
      · simp only [if_neg hseq]
        by_cases hthreads : contains args THREADS
        · simp only [if_pos hthreads]
          exact run_readAll .threaded readCount
        · simp only [if_neg hthreads]
          by_cases hexec : contains args EXECUTOR
          · simp only [if_pos hexec]
            cases hvalue : intValue digit args EXECUTOR with
            | error e => rfl
            | ok threadCount =>
              rw [ofExcept_bind]
              by_cases hpos : threadCount ≤ 0
              · simp only [executor, newFixedThreadPool, if_pos hpos]
                rfl
              · simp only [executor, newFixedThreadPool, if_neg hpos]
                exact run_readAll .executor readCount
          · simp only [if_neg hexec]
            rfl

/-- All errors of `Integer.valueOf` are caught. -/
lemma valueAt_error {i : ℕ} {e : Exn} (h : valueAt digit args i = .error e) : e = .usage := by
  unfold valueAt at h
  cases harg : getArg args (i + 1) with
  | error e' =>
    have he' : e' = .arrayIndexOutOfBounds := by
      unfold getArg at harg
      split at harg
      · cases harg
      · exact (Except.error.inj harg).symm
    subst he'
    rw [harg] at h
    exact (Except.error.inj h).symm
  | ok s =>
    cases hvalue : valueOf digit s with
    | error e' =>
      have he' : e' = .numberFormat := by
        unfold valueOf at hvalue
        split at hvalue
        · split_ifs at hvalue
          exact (Except.error.inj hvalue).symm
        · exact (Except.error.inj hvalue).symm
      subst he'
      have hcaught : (Except.error .usage : Except Exn ℤ) = .error e := by
        rw [← h, harg]
        show _ = tryCatch (valueOf digit s) _
        rw [hvalue]
        rfl
      exact (Except.error.inj hcaught).symm
    | ok v =>
      have hok : (Except.ok v : Except Exn ℤ) = .error e := by
        rw [← h, harg]
        show _ = tryCatch (valueOf digit s) _
        rw [hvalue]
        rfl
      cases hok

/-- **`intValue`** throws no other exception than a `UsageException`. -/
theorem intValue_error {option : ArgsOption} {e : Exn}
    (h : intValue digit args option = .error e) : e = .usage := by
  unfold intValue at h
  split at h
  · split at h
    · exact valueAt_error h
    · split at h
      · cases h
      · exact (Except.error.inj h).symm
  · exact (Except.error.inj h).symm

/-- No other exception escapes if the law holds. -/
lemma UsageLaw.eq_usage {e : Exn} {l : List Read} (h : UsageLaw digit args)
    (hperform : perform digit args = (.error e, l)) : e = .usage := by
  rcases h with ⟨mode, readCount, -, -, hok⟩ | herror
  · rw [hperform] at hok
    cases hok
  · rw [hperform] at herror
    cases herror
    rfl

/-- The numbers fit if the law holds. -/
lemma UsageLaw.fits (h : UsageLaw digit args) : Fits digit args := by
  constructor
  case count =>
    intro readCount hcount
    by_contra hneg
    have hperform : perform digit args = (.error .negativeArraySize, []) := by
      rw [perform_eq, hcount]
      exact if_pos (by omega)
    cases h.eq_usage hperform
  case threads =>
    intro readCount threadCount hcount hseq hthreads hexec hvalue
    by_contra hpos
    have hperform : ∃ e, e ≠ .usage ∧ perform digit args = (.error e, []) := by
      rw [perform_eq, hcount]
      by_cases hneg : readCount < 0
      · exact ⟨.negativeArraySize, nofun, if_pos hneg⟩
      · refine ⟨.illegalArgument, nofun, ?_⟩
        simp [hneg, hseq, hthreads, hexec, hvalue]
        omega
    obtain ⟨e, hne, hperform⟩ := hperform
    exact hne (h.eq_usage hperform)

/-- **When the law holds**: exactly if the numbers fit. -/
theorem usageLaw_iff (digit : JChar → Option ℕ) (args : List JString) :
    UsageLaw digit args ↔ Fits digit args := by
  constructor
  · intro h
    exact h.fits
  · intro h
    unfold UsageLaw
    rw [perform_eq]
    cases hcount : intValue digit args COUNT with
    | error e =>
      obtain rfl := intValue_error hcount
      exact .inr rfl
    | ok readCount =>
      have hnonneg : 0 ≤ readCount := h.count readCount hcount
      simp only [if_neg (Int.not_lt.mpr hnonneg)]
      by_cases hseq : contains args SEQUENTIAL
      · rw [if_pos hseq]
        exact .inl ⟨.sequential, readCount, rfl, hnonneg, rfl⟩
      · rw [if_neg hseq]
        by_cases hthreads : contains args THREADS
        · rw [if_pos hthreads]
          exact .inl ⟨.threaded, readCount, rfl, hnonneg, rfl⟩
        · rw [if_neg hthreads]
          by_cases hexec : contains args EXECUTOR
          · rw [if_pos hexec]
            cases hvalue : intValue digit args EXECUTOR with
            | error e =>
              obtain rfl := intValue_error hvalue
              exact .inr rfl
            | ok threadCount =>
              have hpos : 0 < threadCount := h.threads readCount threadCount hcount
                (Bool.eq_false_iff.mpr hseq) (Bool.eq_false_iff.mpr hthreads) hexec hvalue
              simp only [if_neg (Int.not_le.mpr hpos)]
              exact .inl ⟨.executor, readCount, rfl, hnonneg, rfl⟩
          · rw [if_neg hexec]
            exact .inr rfl

end Law

/-- The digits among the characters of ASCII. -/
def asciiDigit (c : JChar) : Option ℕ :=
  if 0x30 ≤ c.toNat ∧ c.toNat ≤ 0x39 then some (c.toNat - 0x30) else none

/-- **A negative number of reads**: `-sequential -count -1` throws a
`NegativeArraySizeException`. -/
theorem negative_not_usageLaw : ¬ ∀ args, UsageLaw asciiDigit args := by
  intro h
  have hcount := (h [ascii ['-', 's', 'e', 'q', 'u', 'e', 'n', 't', 'i', 'a', 'l'],
    ascii ['-', 'c', 'o', 'u', 'n', 't'], ascii ['-', '1']]).fits.count (-1) (by decide)
  omega

/-- The empty string stands for every option. -/
example : perform asciiDigit [[], ascii ['2']] = (.ok (), reads .sequential 2) := by decide

end CommandLine
