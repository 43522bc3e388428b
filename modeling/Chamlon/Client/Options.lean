import Mathlib.Tactic
import Chamlon.Wire

/-!
The client's command line, `parse_arguments` from `vpn_client.c`. An option is
taken apart with `sscanf("%31[^:]:%31[^:]:%31s")` and its numbers are read with
`atoi`. Whatever the arguments are, the options of a client that starts lie in
the ranges that the server's validation accepts.
-/

namespace Chamlon.Client

open Memory

def isSpace (c : UInt8) : Bool := c == 32 || (9 ≤ c && c ≤ 13)

def isDigit (c : UInt8) : Bool := 48 ≤ c && c ≤ 57

def chars (text : List Char) : Bytes := text.map Char.toUInt8

/-- `%31[^:]`: up to 31 characters other than a colon, at least one. -/
def scanField (input : Bytes) : Option (Bytes × Bytes) :=
  let text := (input.take 31).takeWhile (· != ':'.toUInt8)
  if text = [] then none else some (text, input.drop text.length)

/-- The literal colon of the format. -/
def scanColon : Bytes → Option Bytes
  | c :: rest => if c = ':'.toUInt8 then some rest else none
  | [] => none

/-- `%31s`: white space is skipped, then up to 31 other characters. -/
def scanWord (input : Bytes) : Option Bytes :=
  let text := ((input.dropWhile isSpace).take 31).takeWhile fun c => !isSpace c
  if text = [] then none else some text

/-- An argument of which at least `key` and `v1` were converted; `v2` is there
when `sscanf` returned 3. -/
structure ScannedOption where
  key : Bytes
  v1 : Bytes
  v2 : Option Bytes

def scanOption (arg : Bytes) : Option ScannedOption := do
  let (key, rest) ← scanField arg
  let rest ← scanColon rest
  let (v1, rest) ← scanField rest
  return ⟨key, v1, (scanColon rest).bind scanWord⟩

/-- `strtol` in base 10, saturating at the limits of a 64-bit `long`. -/
def strtol (text : Bytes) : Int :=
  let text := text.dropWhile isSpace
  let negative := text.head? == some '-'.toUInt8
  let digits := if negative || text.head? == some '+'.toUInt8 then text.drop 1 else text
  let value : Nat := (digits.takeWhile isDigit).foldl
    (fun acc d => 10 * acc + (d.toNat - 48)) 0
  max (-2 ^ 63) (min (if negative then -(value : Int) else value) (2 ^ 63 - 1))

/-- `atoi`: the result of `strtol` cut down to an `int`. -/
def atoi (text : Bytes) : Int := (BitVec.ofInt 32 (strtol text)).toInt

/-- `if (value < low) value = low; if (value > high) value = high;`. -/
def clamp (low high value : Int) : Int :=
  let value := if value < low then low else value
  if high < value then high else value

/-- The globals that `parse_arguments` sets. -/
structure Options where
  argv : Params
  rehandshakeInterval : Int
  tunName : Bytes
deriving DecidableEq

def Options.default : Options where
  argv := ⟨5, 1024, 'N'.toUInt8, 'N'.toUInt8⟩
  rehandshakeInterval := 20
  tunName := chars ['t', 'u', 'n', '_', 'c', 'l', 'i', 'e', 'n', 't']

def isYesNo (v1 : Bytes) : Bool :=
  v1.head? == some 'Y'.toUInt8 || v1.head? == some 'N'.toUInt8

/-- The body of the option loop. -/
def applyOption (options : Options) (arg : Bytes) : Options :=
  match scanOption arg with
  | none => options
  | some ⟨key, v1, v2⟩ =>
      if key = chars ['M', 'B', 'P', 'S'] then
        { options with argv.mbps := clamp 1 15 (atoi v1) }
      else if key = chars ['F', 'R', 'A', 'G'] then
        match v2 with
        | some v2 =>
            if isYesNo v1 then
              { options with argv.frag := clamp 300 1200 (atoi v2) }
            else options
        | none => options
      else if key = chars ['C', 'B', 'R'] then
        if isYesNo v1 then { options with argv.cbr := v1.headD 0 } else options
      else if key = chars ['P', 'A', 'D'] then
        if isYesNo v1 then { options with argv.pad := v1.headD 0 } else options
      else if key = chars ['R', 'E', 'H', 'A', 'N', 'D', 'S', 'H', 'A', 'K', 'E'] then
        { options with
          rehandshakeInterval := if atoi v1 < 1 then 1 else atoi v1 }
      else if key = chars ['T', 'U', 'N'] then { options with tunName := v1.take 15 }
      else options

/-- `parse_arguments`, given what `hex2bin` and `inet_aton` accept. -/
def parseArguments (isServerKey isAddress : Bytes → Bool) (argv : List Bytes) :
    Option Options :=
  if argv.length < 4 then none
  else if !isServerKey (argv.getD 3 []) then none
  else if !isAddress (argv.getD 1 []) then none
  else some ((argv.drop 4).foldl applyOption .default)

/-- The ranges of the options of a client that starts. -/
structure Options.InRange (options : Options) : Prop where
  mbps : 1 ≤ options.argv.mbps ∧ options.argv.mbps ≤ 15
  frag : 300 ≤ options.argv.frag ∧ options.argv.frag ≤ 1200
  cbr : options.argv.cbr = 'Y'.toUInt8 ∨ options.argv.cbr = 'N'.toUInt8
  pad : options.argv.pad = 'Y'.toUInt8 ∨ options.argv.pad = 'N'.toUInt8

theorem clamp_bounds (low high value : Int) (h : low ≤ high) :
    low ≤ clamp low high value ∧ clamp low high value ≤ high := by
  unfold clamp
  dsimp only
  split <;> split <;> omega

theorem headD_of_isYesNo {v1 : Bytes} (h : isYesNo v1 = true) :
    v1.headD 0 = 'Y'.toUInt8 ∨ v1.headD 0 = 'N'.toUInt8 := by
  cases v1 with
  | nil => cases h
  | cons c rest =>
      simp only [isYesNo, List.head?_cons, Bool.or_eq_true, beq_iff_eq,
        Option.some.injEq] at h
      exact h

/-- One more option, of whatever form, keeps the ranges. -/
theorem applyOption_inRange {options : Options} (h : options.InRange) (arg : Bytes) :
    (applyOption options arg).InRange := by
  unfold applyOption
  split
  · exact h
  split
  · exact ⟨clamp_bounds 1 15 _ (by decide), h.frag, h.cbr, h.pad⟩
  split
  · split
    · split
      · exact ⟨h.mbps, clamp_bounds 300 1200 _ (by decide), h.cbr, h.pad⟩
      · exact h
    · exact h
  split
  · split
    next hyes => exact ⟨h.mbps, h.frag, headD_of_isYesNo hyes, h.pad⟩
    next => exact h
  split
  · split
    next hyes => exact ⟨h.mbps, h.frag, h.cbr, headD_of_isYesNo hyes⟩
    next => exact h
  split
  · exact ⟨h.mbps, h.frag, h.cbr, h.pad⟩
  split
  · exact ⟨h.mbps, h.frag, h.cbr, h.pad⟩
  · exact h

/-- Every client that gets past its command line has options in range. -/
theorem parseArguments_inRange {isServerKey isAddress : Bytes → Bool}
    {argv : List Bytes} {options : Options}
    (h : parseArguments isServerKey isAddress argv = some options) :
    options.InRange := by
  have hfold : ∀ (args : List Bytes) (start : Options), start.InRange →
      (args.foldl applyOption start).InRange := by
    intro args
    induction args with
    | nil => exact fun start hstart => hstart
    | cons arg rest ih => exact fun start hstart => ih _ (applyOption_inRange hstart arg)
  unfold parseArguments at h
  split at h
  · cases h
  split at h
  · cases h
  split at h
  · cases h
  obtain rfl := Option.some.inj h
  exact hfold _ _ ⟨by decide, by decide, Or.inr rfl, Or.inr rfl⟩

/-- The server's validation leaves such options alone. -/
theorem Options.InRange.validateParams_eq {options : Options} (h : options.InRange) :
    validateParams options.argv = options.argv := by
  obtain ⟨hmbps, hfrag, hcbr, hpad⟩ := h
  unfold validateParams
  simp only [Config.minMbps, Config.maxMbps, Config.minFragParam, Config.maxFragParam]
  rw [if_neg (by omega), if_neg (by omega),
    if_neg (fun hne => hcbr.elim hne.1 hne.2), if_neg (fun hne => hpad.elim hne.1 hne.2)]

end Chamlon.Client
