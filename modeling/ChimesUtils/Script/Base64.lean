import ChimesUtils.Lib.Base64
import ChimesUtils.Redis.Client

/-!
# Base64 in scripts

`base64_decode` removes the line breaks and tries two engines, the first without padding and the second
with it. The engines of the crate are parameters; `Engine.Implements` says what they are documented to
do.

* `decodeWith_encode`: the two engines together read both forms;
* `base64Decode_encoded`: the result for every text that was encoded, and then broken into lines.
-/

namespace ChimesUtils

open Lib

/-- An engine of the `base64` crate; a decoding error is given by its text. -/
structure Engine where
  encode : Bytes → Text
  decode : Text → Except Text Bytes

/-- The presets that the source uses. -/
structure Engines where
  standard : Engine
  standardNoPad : Engine
  urlSafe : Engine
  urlSafeNoPad : Engine

/-- One engine after the other. -/
def decodeWith (noPad padded : Engine) (newt : Text) : Except ChimesError Bytes :=
  match noPad.decode newt with
  | .ok vs => .ok vs
  | .error _ =>
    match padded.decode newt with
    | .ok vs => .ok vs
    | .error err => .error ⟨100010, err⟩

/-- `base64_decode`. -/
def base64Decode (E : Engines) (base : Text) (urlsafe : Bool) : Except ChimesError Bytes :=
  let newt := base.filter (· ≠ '\n')
  if urlsafe then decodeWith E.urlSafeNoPad E.urlSafe newt
  else decodeWith E.standardNoPad E.standard newt

/-- `base64_encode`. -/
def base64Encode (E : Engines) (content : Bytes) : Text := E.standard.encode content

/-! ## The engines -/

/-- The standard alphabet. -/
def standardAlphabet : Vector Char 64 :=
  #v['A', 'B', 'C', 'D', 'E', 'F', 'G', 'H', 'I', 'J', 'K', 'L', 'M', 'N', 'O', 'P', 'Q', 'R', 'S',
    'T', 'U', 'V', 'W', 'X', 'Y', 'Z', 'a', 'b', 'c', 'd', 'e', 'f', 'g', 'h', 'i', 'j', 'k', 'l',
    'm', 'n', 'o', 'p', 'q', 'r', 's', 't', 'u', 'v', 'w', 'x', 'y', 'z', '0', '1', '2', '3', '4',
    '5', '6', '7', '8', '9', '+', '/']

/-- The URL-safe alphabet. -/
def urlSafeAlphabet : Vector Char 64 := (standardAlphabet.set 62 '-').set 63 '_'

/-- What an engine does: it writes its alphabet with the padding or without it, reads what it writes,
and refuses a text with other characters. Padding is another character for an engine without it. -/
structure Engine.Implements (E : Engine) (alphabet : Vector Char 64) (padded : Bool) : Prop where
  encode_eq : ∀ x, E.encode x = Base64.encode alphabet '=' padded x
  decode_encode : ∀ x, E.decode (Base64.encode alphabet '=' padded x) = .ok x
  rejects : ∀ text, ∀ c ∈ text, c ∉ alphabet.toList → (padded = true → c ≠ '=') →
    ∃ err, E.decode text = .error err

/-- The presets do what their names say. -/
structure Engines.Implement (E : Engines) : Prop where
  standard : E.standard.Implements standardAlphabet true
  standardNoPad : E.standardNoPad.Implements standardAlphabet false
  urlSafe : E.urlSafe.Implements urlSafeAlphabet true
  urlSafeNoPad : E.urlSafeNoPad.Implements urlSafeAlphabet false

/-! ## Texts -/

/-- A text with line breaks put in. -/
inductive Broken : Text → Text → Prop where
  | nil : Broken [] []
  | keep {text broken : Text} (c : Char) : Broken text broken → Broken (c :: text) (c :: broken)
  | newline {text broken : Text} : Broken text broken → Broken text ('\n' :: broken)

/-- A text without its padding. -/
def dropPadding (text : Text) : Text := text.rdropWhile (· = '=')

/-- A text that was encoded, with its padding or without, and broken into lines. -/
def IsEncoded (encoded text : Text) : Prop := Broken encoded text ∨ Broken (dropPadding encoded) text

theorem filter_broken {text broken : Text} (h : Broken text broken) (hnewline : '\n' ∉ text) :
    broken.filter (· ≠ '\n') = text := by
  induction h with
  | nil => rfl
  | keep c _ ih =>
    rw [List.mem_cons, not_or] at hnewline
    rw [List.filter_cons_of_pos (by simpa using Ne.symm hnewline.1), ih hnewline.2]
  | newline _ ih =>
    rw [List.filter_cons_of_neg (by simp), ih hnewline]

section Pair

variable {noPad padded : Engine} {alphabet : Vector Char 64}

/-- **Both forms.** The first engine reads the text without padding, and leaves one with padding to the
second. -/
theorem decodeWith_encode (hno : noPad.Implements alphabet false) (hpad : padded.Implements alphabet true)
    (heq : '=' ∉ alphabet.toList) (b : Bool) (x : Bytes) :
    decodeWith noPad padded (Base64.encode alphabet '=' b x) = .ok x := by
  have hunpadded : decodeWith noPad padded (Base64.encode alphabet '=' false x) = .ok x := by
    unfold decodeWith
    rw [hno.decode_encode]
  cases b with
  | false => exact hunpadded
  | true =>
    by_cases hmem : '=' ∈ Base64.encode alphabet '=' true x
    · obtain ⟨err, herr⟩ := hno.rejects _ '=' hmem heq (fun h => absurd h Bool.false_ne_true)
      unfold decodeWith
      rw [herr]
      simp only [hpad.decode_encode]
    · rw [Base64.encode_true_eq hmem]
      exact hunpadded

theorem filter_isEncoded (hpad : padded.Implements alphabet true) (heq : '=' ∉ alphabet.toList)
    (hnewline : '\n' ∉ alphabet.toList) {x : Bytes} {text : Text}
    (h : IsEncoded (padded.encode x) text) :
    ∃ b, text.filter (· ≠ '\n') = Base64.encode alphabet '=' b x := by
  have hclean (b : Bool) : '\n' ∉ Base64.encode alphabet '=' b x := by
    intro hmem
    rcases Base64.mem_of_mem_encode hmem with hmem | hmem
    · exact hnewline hmem
    · exact absurd hmem (by decide)
  have hdrop : dropPadding (Base64.encode alphabet '=' true x) = Base64.encode alphabet '=' false x := by
    rw [Base64.encode_false]
    exact Base64.rdropWhile_encode heq true x
  unfold IsEncoded at h
  rw [hpad.encode_eq, hdrop] at h
  rcases h with h | h
  · exact ⟨true, filter_broken h (hclean true)⟩
  · exact ⟨false, filter_broken h (hclean false)⟩

end Pair

theorem standardAlphabet_clean : '=' ∉ standardAlphabet.toList ∧ '\n' ∉ standardAlphabet.toList := by
  decide

theorem urlSafeAlphabet_clean : '=' ∉ urlSafeAlphabet.toList ∧ '\n' ∉ urlSafeAlphabet.toList := by
  decide

/-- **Base64.** For all bytes and every way to break the encoding into lines, with its padding or without,
the bytes are decoded, in either alphabet. -/
theorem base64Decode_encoded {E : Engines} (hE : E.Implement) (x : Bytes) :
    (∀ text, IsEncoded (base64Encode E x) text → base64Decode E text false = .ok x) ∧
      ∀ text, IsEncoded (E.urlSafe.encode x) text → base64Decode E text true = .ok x := by
  constructor
  · intro text htext
    obtain ⟨heq, hnewline⟩ := standardAlphabet_clean
    obtain ⟨b, hb⟩ := filter_isEncoded hE.standard heq hnewline htext
    show decodeWith E.standardNoPad E.standard (text.filter (· ≠ '\n')) = _
    rw [hb, decodeWith_encode hE.standardNoPad hE.standard heq]
  · intro text htext
    obtain ⟨heq, hnewline⟩ := urlSafeAlphabet_clean
    obtain ⟨b, hb⟩ := filter_isEncoded hE.urlSafe heq hnewline htext
    show decodeWith E.urlSafeNoPad E.urlSafe (text.filter (· ≠ '\n')) = _
    rw [hb, decodeWith_encode hE.urlSafeNoPad hE.urlSafe heq]

/-! ## Engines of the library -/

/-- An engine that decodes with the library. -/
def libraryEngine (alphabet : Vector Char 64) (padded : Bool) : Engine where
  encode := Base64.encode alphabet '=' padded
  decode text := (Base64.decode alphabet '=' padded text).elim (.error "Invalid padding".toList) .ok

theorem libraryEngine_implements {alphabet : Vector Char 64} (hnodup : alphabet.toList.Nodup)
    (heq : '=' ∉ alphabet.toList) (padded : Bool) :
    (libraryEngine alphabet padded).Implements alphabet padded where
  encode_eq _ := rfl
  decode_encode x := by
    show (Base64.decode alphabet '=' padded (Base64.encode alphabet '=' padded x)).elim _ _ = _
    rw [Base64.decode_encode hnodup heq]
    rfl
  rejects text c hc hother hpad := by
    have hnone : Base64.decode alphabet '=' padded text = none := by
      rw [Option.eq_none_iff_forall_ne_some]
      intro x hx
      rcases Base64.mem_of_decode_eq_some hx hc with hmem | ⟨htrue, hc⟩
      · exact hother hmem
      · exact hpad htrue hc
    exact ⟨_, congrArg (Option.elim · _ _) hnone⟩

def libraryEngines : Engines where
  standard := libraryEngine standardAlphabet true
  standardNoPad := libraryEngine standardAlphabet false
  urlSafe := libraryEngine urlSafeAlphabet true
  urlSafeNoPad := libraryEngine urlSafeAlphabet false

theorem libraryEngines_implement : libraryEngines.Implement where
  standard := libraryEngine_implements (by decide) standardAlphabet_clean.1 true
  standardNoPad := libraryEngine_implements (by decide) standardAlphabet_clean.1 false
  urlSafe := libraryEngine_implements (by decide) urlSafeAlphabet_clean.1 true
  urlSafeNoPad := libraryEngine_implements (by decide) urlSafeAlphabet_clean.1 false

/-- The bytes `[251, 255]`, with a line break in front of the padding, and without the padding. -/
theorem base64Decode_encoded_broken :
    base64Decode libraryEngines ['+', '/', '8', '\n', '='] false = .ok [251, 255] ∧
      base64Decode libraryEngines ['-', '\n', '_', '8'] true = .ok [251, 255] := by
  have hstandard : base64Encode libraryEngines [251, 255] = ['+', '/', '8', '='] := by decide
  have hurlSafe : dropPadding (libraryEngines.urlSafe.encode [251, 255]) = ['-', '_', '8'] := by decide
  obtain ⟨hdecode, hdecodeUrl⟩ := base64Decode_encoded libraryEngines_implement [251, 255]
  refine ⟨hdecode _ (.inl ?_), hdecodeUrl _ (.inr ?_)⟩
  · rw [hstandard]
    exact .keep _ (.keep _ (.keep _ (.newline (.keep _ .nil))))
  · rw [hurlSafe]
    exact .keep _ (.newline (.keep _ (.keep _ .nil)))

end ChimesUtils
