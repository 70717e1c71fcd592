import Meridian.Config.Layout
import Meridian.Config.Source

/-!
# Uses of tokens

Which elements of `TokenList` the readers of a configuration file use on a line. The array has as many
tokens as the line: a use beyond them is one of memory that no token was stored in.
-/

namespace Meridian.Config

open Text

variable {V : Type}

/-- The loop over the values of `if_arch` and `if_fw_type`, from the element `ci` on. -/
def conditionUses (want : Str) (ci : Nat) : List Str → List Nat
  | [] => []
  | token :: rest => ci :: if equalsCI token want then [] else conditionUses want (ci + 1) rest

/-- The elements of the array that are used on a line. -/
def Visit.uses (build : BuildNames) (visit : Visit) : List Nat :=
  let tokens := visit.tokens
  match visit.reader with
  | .scan manualInclude =>
    if tokens.length > 1 && isToken tokens "menuentry" then [0, 1]
    else (if tokens.length > 1 then [0] else []) ++
      if !manualInclude && tokens.length = 2 then [1, 0] else []
  | .keyword => [0]
  | .volume => [1]
  | .stanza graphicsTag gotFirmwareTag =>
    0 ::
      if !graphicsTag && isToken tokens "graphics" then (if tokens.length > 1 then [1] else [])
      else if isToken tokens "ostype" then [1]
      else if isToken tokens "if_arch" || isToken tokens "if_fw_type" then
        conditionUses (if isToken tokens "if_arch" then build.arch else build.fwType) 1 (tokens.drop 1)
      else if isToken tokens "loader" then [1]
      else if isToken tokens "initrd" then (if !gotFirmwareTag then [1] else [])
      else if isToken tokens "options" then [1]
      else if isToken tokens "firmware_bootnum" then [1]
      else if isToken tokens "submenuentry" then [1]
      else []
  | .submenu graphicsTag =>
    0 ::
      if isToken tokens "loader" then [1]
      else if isToken tokens "initrd" then [1]
      else if isToken tokens "options" then [1]
      else if isToken tokens "add_options" then [1]
      else if !graphicsTag && isToken tokens "graphics" then (if tokens.length > 1 then [1] else [])
      else []
  | .firstOptions => if tokens.length > 1 then [1, 0] else []
  | .options => [1, 0]

/-- No element beyond the tokens is used. -/
def Visit.Inside (build : BuildNames) (visit : Visit) : Prop :=
  ∀ index ∈ visit.uses build, index < visit.tokens.length

/-- The first token is one of these words. -/
def isTokenOf (tokens : List Str) (words : List String) : Bool := words.any (isToken tokens)

/-- The line is one whose second token is used without a look at the count. -/
def Visit.needsValue (visit : Visit) : Bool :=
  match visit.reader with
  | .scan _ | .keyword | .firstOptions => false
  | .volume | .options => true
  | .stanza _ gotFirmwareTag =>
    isTokenOf visit.tokens ["ostype", "loader", "options", "firmware_bootnum", "submenuentry"] ||
      !gotFirmwareTag && isToken visit.tokens "initrd"
  | .submenu _ => isTokenOf visit.tokens ["loader", "initrd", "options", "add_options"]

/-! ### One line -/

theorem isTokenOf_other {tokens : List Str} {word : String} (h : isToken tokens word = true)
    (others : List String) (apart : ∀ other ∈ others, word.toList.map lowerChar ≠ other.toList.map lowerChar) :
    isTokenOf tokens others = false := by
  rw [isTokenOf, List.any_eq_false]
  intro other mem
  rw [isToken_other h other (apart other mem)]
  exact Bool.false_ne_true

theorem isTokenOf_self {tokens : List Str} {word : String} (h : isToken tokens word = true)
    {words : List String} (mem : word ∈ words) : isTokenOf tokens words = true :=
  List.any_eq_true.mpr ⟨word, mem, h⟩

theorem conditionUses_lt {want : Str} {ci : Nat} {tokens : List Str} :
    ∀ index ∈ conditionUses want ci tokens, index < ci + tokens.length := by
  induction tokens generalizing ci with
  | nil => exact fun index mem => (nomatch mem)
  | cons token rest ih =>
    intro index mem
    rw [conditionUses] at mem
    rw [List.length_cons]
    rcases List.mem_cons.mp mem with rfl | mem
    · omega
    · split at mem
      · cases mem
      · have bound := ih index mem
        omega

/-- All of these elements are there. -/
def Within (count : Nat) (uses : List Nat) : Prop := ∀ index ∈ uses, index < count

theorem within_cons {count index : Nat} {uses : List Nat} :
    Within count (index :: uses) ↔ index < count ∧ Within count uses := List.forall_mem_cons

theorem within_nil (count : Nat) : Within count [] := fun _ mem => (nomatch mem)

theorem within_value {count : Nat} : Within count [1] ↔ 2 ≤ count := by
  rw [within_cons, and_iff_left (within_nil count)]
  exact Iff.rfl

theorem within_guarded (count : Nat) : Within count (if count > 1 then [1] else []) := by
  split
  · rename_i more
    exact within_value.mpr more
  · exact within_nil count

/-- A value is used where one is needed. -/
theorem inside_of_needed {needs : Bool} {count : Nat} (yes : needs = true) :
    Within count [1] ↔ (needs = true → 2 ≤ count) :=
  within_value.trans ⟨fun more _ => more, fun h => h yes⟩

theorem inside_of_unneeded {needs : Bool} {count : Nat} {uses : List Nat} (no : needs = false)
    (within : Within count uses) : Within count uses ↔ (needs = true → 2 ≤ count) :=
  iff_of_true within fun yes => absurd (yes.symm.trans no) (nofun)

section
variable {build : BuildNames} {tokens : List Str} (some : tokens ≠ [])

include some

theorem within_keyword {uses : List Nat} : Within tokens.length (0 :: uses) ↔ Within tokens.length uses := by
  rw [within_cons, and_iff_right (List.length_pos_iff.mpr some)]

theorem within_condition (want : Str) : Within tokens.length (conditionUses want 1 (tokens.drop 1)) := by
  intro index mem
  have bound := conditionUses_lt index mem
  have positive := List.length_pos_iff.mpr some
  rw [List.length_drop] at bound
  omega

theorem stanza_inside_iff (graphicsTag gotFirmwareTag : Bool) :
    Visit.Inside build ⟨.stanza graphicsTag gotFirmwareTag, tokens⟩ ↔
      (Visit.needsValue ⟨.stanza graphicsTag gotFirmwareTag, tokens⟩ = true → 2 ≤ tokens.length) := by
  let valued := ["ostype", "loader", "options", "firmware_bootnum", "submenuentry"]
  have value : ∀ {word : String}, isToken tokens word = true → word ∈ valued →
      Visit.needsValue ⟨.stanza graphicsTag gotFirmwareTag, tokens⟩ = true := by
    intro word names mem
    rw [Visit.needsValue]
    exact Bool.or_eq_true_iff.mpr (Or.inl (isTokenOf_self names mem))
  have other : ∀ {word : String}, isToken tokens word = true →
      (∀ other ∈ "initrd" :: valued, word.toList.map lowerChar ≠ other.toList.map lowerChar) →
      Visit.needsValue ⟨.stanza graphicsTag gotFirmwareTag, tokens⟩ = false := by
    intro word names apart
    obtain ⟨initrd, apart⟩ := List.forall_mem_cons.mp apart
    rw [Visit.needsValue]
    dsimp only
    rw [isTokenOf_other names valued apart, isToken_other names "initrd" initrd, Bool.and_false, Bool.or_false]
  refine (within_keyword some).trans ?_
  dsimp only
  by_cases graphics : (!graphicsTag && isToken tokens "graphics") = true
  · rw [if_pos graphics]
    exact inside_of_unneeded (other (Bool.and_eq_true_iff.mp graphics).2 (by decide)) (within_guarded _)
  rw [if_neg graphics]
  by_cases osType : isToken tokens "ostype" = true
  · rw [if_pos osType]
    exact inside_of_needed (value osType (by decide))
  rw [if_neg osType]
  by_cases condition : (isToken tokens "if_arch" || isToken tokens "if_fw_type") = true
  · rw [if_pos condition]
    rcases Bool.or_eq_true_iff.mp condition with names | names
    · exact inside_of_unneeded (other names (by decide)) (within_condition some _)
    · exact inside_of_unneeded (other names (by decide)) (within_condition some _)
  rw [if_neg condition]
  by_cases loader : isToken tokens "loader" = true
  · rw [if_pos loader]
    exact inside_of_needed (value loader (by decide))
  rw [if_neg loader]
  by_cases initrd : isToken tokens "initrd" = true
  · rw [if_pos initrd, Visit.needsValue]
    dsimp only
    rw [isTokenOf_other initrd valued (by decide), initrd, Bool.and_true, Bool.false_or]
    cases gotFirmwareTag with
    | true => exact inside_of_unneeded rfl (within_nil _)
    | false => exact inside_of_needed rfl
  rw [if_neg initrd]
  by_cases options : isToken tokens "options" = true
  · rw [if_pos options]
    exact inside_of_needed (value options (by decide))
  rw [if_neg options]
  by_cases firmware : isToken tokens "firmware_bootnum" = true
  · rw [if_pos firmware]
    exact inside_of_needed (value firmware (by decide))
  rw [if_neg firmware]
  by_cases header : isToken tokens "submenuentry" = true
  · rw [if_pos header]
    exact inside_of_needed (value header (by decide))
  rw [if_neg header]
  refine inside_of_unneeded ?_ (within_nil _)
  have none : isTokenOf tokens valued = false := by
    rw [isTokenOf, List.any_eq_false]
    simp only [valued, List.forall_mem_cons]
    exact ⟨osType, loader, options, firmware, header, fun _ mem => (nomatch mem)⟩
  rw [Visit.needsValue]
  dsimp only
  rw [none, Bool.eq_false_iff.mpr initrd, Bool.and_false, Bool.or_false]

theorem submenu_inside_iff (graphicsTag : Bool) :
    Visit.Inside build ⟨.submenu graphicsTag, tokens⟩ ↔
      (Visit.needsValue ⟨.submenu graphicsTag, tokens⟩ = true → 2 ≤ tokens.length) := by
  let valued := ["loader", "initrd", "options", "add_options"]
  have value : ∀ {word : String}, isToken tokens word = true → word ∈ valued →
      Visit.needsValue ⟨.submenu graphicsTag, tokens⟩ = true := fun names mem => isTokenOf_self names mem
  refine (within_keyword some).trans ?_
  dsimp only
  by_cases loader : isToken tokens "loader" = true
  · rw [if_pos loader]
    exact inside_of_needed (value loader (by decide))
  rw [if_neg loader]
  by_cases initrd : isToken tokens "initrd" = true
  · rw [if_pos initrd]
    exact inside_of_needed (value initrd (by decide))
  rw [if_neg initrd]
  by_cases options : isToken tokens "options" = true
  · rw [if_pos options]
    exact inside_of_needed (value options (by decide))
  rw [if_neg options]
  by_cases addOptions : isToken tokens "add_options" = true
  · rw [if_pos addOptions]
    exact inside_of_needed (value addOptions (by decide))
  rw [if_neg addOptions]
  have none : Visit.needsValue ⟨.submenu graphicsTag, tokens⟩ = false := by
    rw [Visit.needsValue]
    dsimp only
    rw [isTokenOf, List.any_eq_false]
    simp only [List.forall_mem_cons]
    exact ⟨loader, initrd, options, addOptions, fun _ mem => (nomatch mem)⟩
  refine inside_of_unneeded none ?_
  split
  · exact within_guarded _
  · exact within_nil _

theorem scan_inside (manualInclude : Bool) : Visit.Inside build ⟨.scan manualInclude, tokens⟩ := by
  have first : 0 < tokens.length := List.length_pos_iff.mpr some
  intro index mem
  rw [Visit.uses] at mem
  dsimp only at mem ⊢
  split at mem
  · rename_i header
    have more : tokens.length > 1 := of_decide_eq_true (Bool.and_eq_true_iff.mp header).1
    simp only [List.mem_cons, List.not_mem_nil, or_false] at mem
    omega
  · rcases List.mem_append.mp mem with keyword | named
    · split at keyword
      · rw [List.mem_singleton.mp keyword]
        exact first
      · cases keyword
    · split at named
      · rename_i two
        have count : tokens.length = 2 := of_decide_eq_true (Bool.and_eq_true_iff.mp two).2
        simp only [List.mem_cons, List.not_mem_nil, or_false] at named
        omega
      · cases named

/-- The tokens that the code uses are there exactly when the line has a value where one is needed. -/
theorem visit_inside_iff (reader : Reader) :
    Visit.Inside build ⟨reader, tokens⟩ ↔
      (Visit.needsValue ⟨reader, tokens⟩ = true → 2 ≤ tokens.length) := by
  cases reader with
  | scan manualInclude => exact inside_of_unneeded rfl (scan_inside some manualInclude)
  | keyword => exact inside_of_unneeded rfl ((within_keyword some).mpr (within_nil _))
  | volume => exact inside_of_needed rfl
  | stanza graphicsTag gotFirmwareTag => exact stanza_inside_iff some graphicsTag gotFirmwareTag
  | submenu graphicsTag => exact submenu_inside_iff some graphicsTag
  | firstOptions =>
    refine inside_of_unneeded rfl ?_
    intro index mem
    rw [Visit.uses] at mem
    dsimp only at mem ⊢
    split at mem
    · rename_i more
      simp only [List.mem_cons, List.not_mem_nil, or_false] at mem
      omega
    · cases mem
  | options =>
    have first : Within tokens.length [0] := (within_keyword some).mpr (within_nil _)
    have both : Within tokens.length [1, 0] ↔ 1 < tokens.length := within_cons.trans (and_iff_left first)
    exact both.trans ⟨fun more _ => more, fun h => h rfl⟩

end

/-! ### Whole files -/

/-- The line has tokens. -/
def Visit.Tokens (visit : Visit) : Prop := visit.tokens ≠ []

section
variable (env : ReaderEnv V)

theorem visits_one (reader : Reader) {tokens : List Str} (some : tokens ≠ []) :
    ∀ visit ∈ [(⟨reader, tokens⟩ : Visit)], visit.Tokens := List.forall_mem_singleton.mpr some

theorem getIsDisabled_tokens (source : Source) :
    ∀ visit ∈ (source.getIsDisabled env.build).visits, visit.Tokens := by
  rw [Source.getIsDisabled]
  refine loop_visits ?_ _ source
  intro st tokens source some
  have here := visits_one .keyword some
  rw [disabledHandler]
  dsimp only
  repeat' split
  all_goals exact here

theorem getStanzaVolume_tokens (source : Source) (volume : V) :
    ∀ visit ∈ (source.getStanzaVolume env volume).visits, visit.Tokens := by
  have loop : ∀ visit ∈ (Source.loop env.build (volumeHandler env) { subjectVolume := volume } source).visits,
      visit.Tokens := loop_visits ?_ _ source
  · rw [Source.getStanzaVolume]
    dsimp only
    split <;> exact loop
  · intro st tokens source some
    have keyword := visits_one .keyword some
    have ahead := getIsDisabled_tokens env source
    have both := List.forall_mem_append.mpr ⟨keyword, ahead⟩
    have named := List.forall_mem_append.mpr ⟨both, visits_one .volume some⟩
    rw [volumeHandler]
    dsimp only
    repeat' split
    all_goals first | exact keyword | exact both | exact named

theorem addSubmenu_tokens (source : Source) (volume : V) :
    ∀ visit ∈ (source.addSubmenu env volume).visits, visit.Tokens := by
  have found := getStanzaVolume_tokens env source volume
  rw [Source.addSubmenu]
  split
  · exact found
  · refine List.forall_mem_append.mpr ⟨found, loop_visits ?_ _ _⟩
    intro st tokens source some
    rw [submenuHandler]
    dsimp only
    split
    · exact visits_one _ some
    · exact visits_one _ some

theorem initializeStanza_tokens (source : Source) (selfVolume : V) :
    ∀ visit ∈ (source.initializeStanza env selfVolume).visits, visit.Tokens := by
  have found := getStanzaVolume_tokens env source selfVolume
  rw [Source.initializeStanza]
  split
  · exact found
  · refine List.forall_mem_append.mpr ⟨found, loop_visits ?_ _ _⟩
    intro st tokens source some
    rw [stanzaHandler]
    dsimp only
    split
    · exact visits_one _ some
    · split
      · exact List.forall_mem_cons.mpr ⟨some, addSubmenu_tokens env source _⟩
      · exact visits_one _ some

theorem generateSubScreenLines_tokens (macros : Macros) (stanza : List Visit) :
    ∀ visit ∈ (generateSubScreenLines env macros stanza).2, visit.Tokens := by
  rw [generateSubScreenLines]
  split
  · exact fun visit mem => (nomatch mem)
  · exact loop_visits (fun st tokens source some => visits_one _ some) _ _

theorem scanFile_tokens (selfVolume : V) {scanInclude? : Option (Macros → Str → Macros × List Visit)}
    (included : ∀ scanInclude ∈ scanInclude?, ∀ macros name, ∀ visit ∈ (scanInclude macros name).2, visit.Tokens)
    (macros : Macros) (fileName : Str) :
    ∀ visit ∈ (scanFile env selfVolume scanInclude? macros fileName).2, visit.Tokens := by
  rw [scanFile]
  split
  · exact fun visit mem => (nomatch mem)
  · refine loop_visits ?_ _ _
    intro st tokens source some
    rw [scanHandler]
    dsimp only
    split
    · exact List.forall_mem_cons.mpr ⟨some, List.forall_mem_append.mpr
        ⟨initializeStanza_tokens env source selfVolume, generateSubScreenLines_tokens env _ _⟩⟩
    · split
      · exact visits_one _ some
      · rename_i scanInclude
        split
        · exact List.forall_mem_cons.mpr ⟨some, included scanInclude rfl _ _⟩
        · exact visits_one _ some

theorem scanUserConfigured_tokens (selfVolume : V) (macros : Macros) (fileName : Str) :
    ∀ visit ∈ (scanUserConfigured env selfVolume macros fileName).2, visit.Tokens := by
  refine scanFile_tokens env selfVolume ?_ macros fileName
  rintro scanInclude ⟨⟩ macros name
  refine scanFile_tokens env selfVolume ?_ macros name
  rintro _ ⟨⟩

/-- No token is used beyond the count of its line exactly when every line that is handled as one with a
value has one. -/
theorem scanUserConfigured_inside_iff (selfVolume : V) (macros : Macros) (fileName : Str) :
    (∀ visit ∈ (scanUserConfigured env selfVolume macros fileName).2, visit.Inside env.build) ↔
      ∀ visit ∈ (scanUserConfigured env selfVolume macros fileName).2,
        visit.needsValue = true → 2 ≤ visit.tokens.length := by
  have tokens := scanUserConfigured_tokens env selfVolume macros fileName
  exact forall₂_congr fun visit mem => visit_inside_iff (tokens visit mem) visit.reader

end

/-! ### A line without a value -/

/-- A configuration file with these lines, and no options file. -/
def fileEnv (lines : List String) : ReaderEnv Unit where
  findVolume := fun _ => some ()
  usable := fun _ => true
  build := ⟨"x86_64".toList, "uefi".toList⟩
  configFilename := "config.conf".toList
  file := fun name => if equalsCI name "config.conf".toList then some (lines.map String.toList) else none
  optionsFile := fun _ => none

theorem scanUserConfigured_bare_loader :
    let env := fileEnv ["menuentry Linux \x7b", "  loader", "\x7d"]
    ¬∀ visit ∈ (scanUserConfigured env () [] env.configFilename).2, visit.Inside env.build := by
  intro env inside
  let visit : Visit := ⟨.stanza false false, ["loader".toList]⟩
  have read : visit ∈ (scanUserConfigured env () [] env.configFilename).2 := by decide +kernel
  have bound := inside visit read 1 (by decide)
  exact absurd bound (by decide)

end Meridian.Config
