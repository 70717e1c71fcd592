import Meridian.Config.TextFiles
import Meridian.Config.Tokens
import Meridian.Lib.Words

/-!
# Options from a file system table

The model of `SubvolFromTokens` and `GenerateOptionsFromEtcFstab` of `config/config_linux.c`. The
options that are made are read back with `ReadTokenLine`. Allocations and copies succeed.
-/

namespace Meridian.Config

open Text Lib.Pieces Lib.Words

def restoreSlash (c : Char) : Char := if c = '\\' then '/' else c

def subvolFromTokens : List Str → Option Str
  | key :: value :: rest =>
    if !equalsCI key "subvol".toList then subvolFromTokens (value :: rest)
    else if value = [] then none
    else some (value.map restoreSlash)
  | _ => none

/-- The device that is taken from the tokens, unless it is empty. -/
def fstabRoot : List Str → Option Str
  | first :: second :: third :: _ =>
    let root :=
      if second = ['\\'] then some first
      else if third = ['\\'] then some (first ++ '=' :: second)
      else none
    (root.filter (· ≠ [])).map (·.map restoreSlash)
  | _ => none

def defaultTitle : Str := "Boot with Default Options".toList

def singleUserTitle : Str := "Boot into SingleUser Mode".toList

def rootName : Str := "root=".toList

def subvolFlagName : Str := "rootflags=subvol=".toList

/-- The text between the second pair of quotes. -/
def bootOptions (root : Str) (subvol : Option Str) (mode : Str) : Str :=
  match subvol with
  | some subvol => "ro ".toList ++ (rootName ++ root) ++ ' ' :: (subvolFlagName ++ subvol) ++ mode
  | none => "ro ".toList ++ (rootName ++ root) ++ mode

def optionsLine (title options : Str) : Str := '"' :: title ++ "\"    \"".toList ++ options ++ "\"\n".toList

def singleMode : Str := " single".toList

/-- What is done with the tokens of one line of the table. -/
def addFstabTokens (options : Option Str) (tokens : List Str) : Option Str :=
  match fstabRoot tokens with
  | none => options
  | some root =>
    let subvol := subvolFromTokens tokens
    let options := mergeStrings options (optionsLine defaultTitle (bootOptions root subvol [])) none
    some (mergeStrings (some options) (optionsLine singleUserTitle (bootOptions root subvol singleMode)) none)

/-- `GenerateOptionsFromEtcFstab`, on the lines of the table: the macros behind it and the text that is
made, if there is one. -/
def generateOptionsFromEtcFstab (build : BuildNames) (macros : Macros) (lines : List Str) :
    Macros × Option Str :=
  let read := tokenLines build macros lines
  (read.1, read.2.foldl addFstabTokens none)

/-- The lines of the text that is made; its terminating null is in the file. -/
def madeLines : Option Str → List Str
  | none => []
  | some text => pieces endsLine (text ++ ['\x00'])

/-- The token lines of the text that is made. -/
def readBack (build : BuildNames) (macros : Macros) (text : Option Str) : List (List Str) :=
  (tokenLines build macros (madeLines text)).2

/-- The file of the text that is made: in memory, without a mark. -/
def madeFile (text : Str) : MeridianFile :=
  let data := ((text ++ ['\x00']).flatMap utf16EncodeChar).flatMap le16
  { bufferData := some data
    encoding := .utf16LE
    current08 := 0
    end08 := data.length
    current16 := 0
    end16 := data.length }

/-- `ReadLine` gives these lines of the file. -/
theorem madeFile_lines (signed : Bool) (text : Str) {calls : Nat}
    (enough : ((text ++ ['\x00']).flatMap utf16EncodeChar).length < calls) :
    readLines signed calls (madeFile text) = some ((madeLines (some text)).map (·.flatMap utf16EncodeChar)) := by
  set units := (text ++ ['\x00']).flatMap utf16EncodeChar with unitsEq
  have stores := stores_read16 [] (units.flatMap le16)
  rw [units16_le16] at stores
  have size : (madeFile text).end16 = 0 + units.length * 2 := by
    rw [Nat.zero_add, Nat.mul_comm, ← le16_length]
    rfl
  rw [readLines_utf16 signed rfl rfl, madeLines, ← pieces_flatMap utf16_separated, ← unitsEq]
  exact linesFrom_pieces stores (by decide) size enough

/-! ### What a line of the table says -/

/-- The fields of a line, between blanks. -/
def fstabFields (line : Str) : List Str := words ' ' (line.map fun c => if c = '\t' then ' ' else c)

structure RootEntry where
  device : Str
  /-- The paths of the mount options `subvol=`. -/
  subvols : List Str
  deriving DecidableEq, Repr

def subvolPaths (mountOptions : Str) : List Str :=
  (words ',' mountOptions).filterMap fun option =>
    if "subvol=".toList.isPrefixOf option then some (option.drop 7) else none

/-- The entry of a line whose mount point is the root. -/
def rootEntry (line : Str) : Option RootEntry :=
  match fstabFields line with
  | device :: mountPoint :: rest =>
    if device.head? = some '#' then none
    else if mountPoint = ['/'] then some ⟨device, subvolPaths (rest.getD 1 [])⟩
    else none
  | _ => none

/-- The options start the entry: its device is the root, and its subvolumes are the flags. -/
structure Starts (entry : RootEntry) (options : Str) : Prop where
  root : (words ' ' options).filter (rootName.isPrefixOf ·) = [rootName ++ entry.device]
  flags : (words ' ' options).filter (subvolFlagName.isPrefixOf ·) = entry.subvols.map (subvolFlagName ++ ·)

/-- What is to be read back for a line: two lines of two tokens for the root, and nothing for any other
line. -/
def RightLines (line : Str) (read : List (List Str)) : Prop :=
  match rootEntry line with
  | none => read = []
  | some entry => ∃ title options title' options',
      read = [[title, options], [title', options']] ∧ Starts entry options ∧ Starts entry options'

/-! ### The lines with what is read of them -/

/-- The lines of the table, each with its tokens; there are none where it is passed over. -/
def fstabReads (build : BuildNames) (macros : Macros) (lines : List Str) : List (Str × List Str) :=
  (lines.map cString).zip ((lineReads build macros false lines).map LineRead.tokens)

/-- What is read back of the text that one line of the table adds. -/
def linesFor (build : BuildNames) (macros : Macros) (tokens : List Str) : List (List Str) :=
  readBack build macros (addFstabTokens none tokens)

/-- The table is read back as it says. -/
structure ReadsBack (build : BuildNames) (macros : Macros) (lines : List Str) : Prop where
  whole : let made := generateOptionsFromEtcFstab build macros lines
    readBack build made.1 made.2 =
      (fstabReads build macros lines).flatMap fun read => linesFor build made.1 read.2
  each : ∀ read ∈ fstabReads build macros lines,
    RightLines read.1 (linesFor build (generateOptionsFromEtcFstab build macros lines).1 read.2)

/-- The tokens line up with the entry: the device and the path are found, no quote is in them, and no
macro is expanded when they are read again. -/
structure LinesUp (build : BuildNames) (macros : Macros) (entry : RootEntry) (tokens : List Str) : Prop where
  root : fstabRoot tokens = some entry.device
  subvols : (subvolFromTokens tokens).toList = entry.subvols
  plainDevice : '"' ∉ entry.device
  plainSubvols : ∀ subvol ∈ entry.subvols, '"' ∉ subvol
  stable : ∀ mode ∈ [[], singleMode],
    expandConfigMacros build macros (bootOptions entry.device (subvolFromTokens tokens) mode) =
      bootOptions entry.device (subvolFromTokens tokens) mode

/-- Every line of the root lines up, and no other line looks like one. -/
def TableLinesUp (build : BuildNames) (macros : Macros) (lines : List Str) : Prop :=
  ∀ read ∈ fstabReads build macros lines,
    match rootEntry read.1 with
    | none => fstabRoot read.2 = none
    | some entry => LinesUp build (tokenLines build macros lines).1 entry read.2

/-! ### Options as words -/

theorem bootOptions_none (root mode : Str) :
    bootOptions root none mode = "ro ".toList ++ (rootName ++ (root ++ mode)) := rfl

theorem bootOptions_some (root path mode : Str) :
    bootOptions root (some path) mode =
      "ro ".toList ++ (rootName ++ (root ++ (' ' :: subvolFlagName ++ (path ++ mode)))) := by
  have shape : bootOptions root (some path) mode =
      "ro ".toList ++ (rootName ++ root) ++ ' ' :: (subvolFlagName ++ path) ++ mode := rfl
  rw [shape, List.append_assoc, List.append_assoc, List.append_assoc, List.cons_append, List.cons_append,
    List.append_assoc]

theorem bootOptions_words {root : Str} {subvol : Option Str} {mode : Str} (wholeRoot : ' ' ∉ root)
    (wholeSubvol : ∀ path ∈ subvol, ' ' ∉ path) (ends : Ends ' ' mode) :
    words ' ' (bootOptions root subvol mode) =
      "ro".toList :: (rootName ++ root) :: (subvol.toList.map (subvolFlagName ++ ·) ++ words ' ' mode) := by
  have rootWord : rootName ++ root ≠ [] := List.append_ne_nil_of_left_ne_nil (by decide) root
  have rootWhole : ' ' ∉ rootName ++ root := by
    rw [List.mem_append, not_or]
    exact ⟨by decide, wholeRoot⟩
  have ro : words ' ' "ro".toList = ["ro".toList] := words_word (by decide) (by decide)
  cases subvol with
  | none =>
    have shape : bootOptions root none mode = "ro".toList ++ ' ' :: ((rootName ++ root) ++ mode) := rfl
    rw [shape, words_append_cons, ro, words_ends rootWord rootWhole ends]
    rfl
  | some path =>
    have shape : bootOptions root (some path) mode =
        "ro".toList ++ ' ' :: ((rootName ++ root) ++ ' ' :: ((subvolFlagName ++ path) ++ mode)) :=
      bootOptions_some root path mode
    have flagWord : subvolFlagName ++ path ≠ [] := List.append_ne_nil_of_left_ne_nil (by decide) path
    have flagWhole : ' ' ∉ subvolFlagName ++ path := by
      rw [List.mem_append, not_or]
      exact ⟨by decide, wholeSubvol path rfl⟩
    rw [shape, words_append_cons, ro, words_append_cons, words_word rootWord rootWhole,
      words_ends flagWord flagWhole ends]
    rfl

theorem starts_iff {entry : RootEntry} {root : Str} {subvol : Option Str} {mode : Str} (wholeRoot : ' ' ∉ root)
    (wholeSubvol : ∀ path ∈ subvol, ' ' ∉ path) (known : mode ∈ [[], singleMode]) :
    Starts entry (bootOptions root subvol mode) ↔ root = entry.device ∧ subvol.toList = entry.subvols := by
  have modeWords : Ends ' ' mode ∧ (words ' ' mode).filter (rootName.isPrefixOf ·) = [] ∧
      (words ' ' mode).filter (subvolFlagName.isPrefixOf ·) = [] := by
    rcases List.mem_cons.mp known with rfl | known
    · exact ⟨fun x first => (nomatch first), rfl, rfl⟩
    · rw [List.mem_singleton.mp known]
      have one : words ' ' singleMode = ["single".toList] := by
        have shape : singleMode = ' ' :: "single".toList := rfl
        rw [shape, words_cons, words_word (by decide) (by decide)]
      rw [one]
      exact ⟨fun x first => (Option.some.inj first).symm, rfl, rfl⟩
  obtain ⟨ends, noRoot, noFlag⟩ := modeWords
  have whole := bootOptions_words wholeRoot wholeSubvol ends
  have roots : (words ' ' (bootOptions root subvol mode)).filter (rootName.isPrefixOf ·) =
      [rootName ++ root] := by
    have none : ∀ flag ∈ subvol.toList.map (subvolFlagName ++ ·), ¬rootName.isPrefixOf flag = true := by
      intro flag mem
      obtain ⟨path, _, rfl⟩ := List.mem_map.mp mem
      exact Bool.false_ne_true
    have here : rootName.isPrefixOf (rootName ++ root) = true :=
      List.isPrefixOf_iff_prefix.mpr (List.prefix_append rootName root)
    rw [whole, List.filter_cons_of_neg (by decide), List.filter_cons_of_pos here, List.filter_append,
      List.filter_eq_nil_iff.mpr none, noRoot]
    rfl
  have flags : (words ' ' (bootOptions root subvol mode)).filter (subvolFlagName.isPrefixOf ·) =
      subvol.toList.map (subvolFlagName ++ ·) := by
    have all : ∀ flag ∈ subvol.toList.map (subvolFlagName ++ ·), subvolFlagName.isPrefixOf flag = true := by
      intro flag mem
      obtain ⟨path, _, rfl⟩ := List.mem_map.mp mem
      exact List.isPrefixOf_iff_prefix.mpr (List.prefix_append subvolFlagName path)
    have other : ¬subvolFlagName.isPrefixOf (rootName ++ root) = true := Bool.false_ne_true
    rw [whole, List.filter_cons_of_neg (by decide), List.filter_cons_of_neg other, List.filter_append,
      List.filter_eq_self.mpr all, noFlag, List.append_nil]
  constructor
  · rintro ⟨root', flags'⟩
    rw [roots] at root'
    rw [flags] at flags'
    exact ⟨List.append_cancel_left (List.cons.inj root').1,
      List.map_injective_iff.mpr (fun _ _ => List.append_cancel_left) flags'⟩
  · rintro ⟨rfl, same⟩
    exact ⟨roots, by rw [flags, same]⟩

/-! ### The lines that are made -/

/-- What may stand between quotes on a line. -/
def printable (c : Char) : Bool := c ≠ '"' && c ≠ '\x00' && !endsLine c

/-- The characters of what is written around the device and the path. -/
def bootLetters : Str := "ro tflagsubvine=".toList

theorem bootOptions_all {p : Char → Bool} {root : Str} {subvol : Option Str} {mode : Str}
    (letters : bootLetters.all p = true) (allRoot : root.all p = true)
    (allSubvol : ∀ path ∈ subvol, path.all p = true) (known : mode ∈ [[], singleMode]) :
    (bootOptions root subvol mode).all p = true := by
  have fixed : ∀ text : Str, text.all (bootLetters.contains ·) = true → text.all p = true := by
    intro text inside
    rw [List.all_eq_true] at letters inside ⊢
    exact fun c mem => letters c (List.contains_iff_mem.mp (inside c mem))
  have allMode : mode.all p = true := by
    rcases List.mem_cons.mp known with rfl | known
    · rfl
    · rw [List.mem_singleton.mp known]
      exact fixed _ (by decide)
  have ro : "ro ".toList.all p = true := fixed _ (by decide)
  have name : rootName.all p = true := fixed _ (by decide)
  cases subvol with
  | none =>
    rw [bootOptions_none, List.all_append, List.all_append, List.all_append, ro, name, allRoot, allMode]
    rfl
  | some path =>
    have flag : (' ' :: subvolFlagName).all p = true := fixed _ (by decide)
    rw [bootOptions_some, List.all_append, List.all_append, List.all_append, List.all_append, List.all_append, ro,
      name, allRoot, flag, allSubvol path rfl, allMode]
    rfl

/-- A line of two tokens in quotes, without its end. -/
def quotedLine (title options : Str) : Str := '"' :: title ++ "\"    \"".toList ++ options ++ ['"']

theorem optionsLine_eq (title options : Str) : optionsLine title options = quotedLine title options ++ ['\n'] := by
  rw [optionsLine, quotedLine, List.append_assoc _ ['"'] ['\n']]
  rfl

theorem not_mem_of_all {p : Char → Bool} {text : Str} (all : text.all p = true) {c : Char} (out : p c = false) :
    c ∉ text := by
  intro mem
  rw [List.all_eq_true] at all
  exact absurd (all c mem) (by rw [out]; exact Bool.false_ne_true)

theorem quotedLine_piece {title options : Str} (printTitle : title.all printable = true)
    (printOptions : options.all printable = true) : IsPiece endsLine (quotedLine title options) := by
  refine ⟨List.cons_ne_nil _ _, ?_⟩
  have inner : ∀ c, printable c = true → endsLine c = false := by
    intro c prints
    rw [printable, Bool.and_eq_true] at prints
    simpa using prints.2
  intro c mem
  rw [quotedLine, List.mem_append, List.mem_append, List.mem_append, List.mem_cons] at mem
  rw [List.all_eq_true] at printTitle printOptions
  rcases mem with ((((rfl | title) | between) | options) | last)
  · decide
  · exact inner c (printTitle c title)
  · have known : ("\"    \"".toList).all (fun c => !endsLine c) = true := by decide
    simpa using List.all_eq_true.mp known c between
  · exact inner c (printOptions c options)
  · rw [List.mem_singleton.mp last]
    decide

/-- The line is read as its two tokens. -/
theorem readTokens_quotedLine {build : BuildNames} {macros : Macros} {title options : Str}
    (printTitle : title.all printable = true) (printOptions : options.all printable = true)
    (noMacro : '$' ∉ title) (stable : expandConfigMacros build macros options = options) :
    readTokens build macros false (quotedLine title options) = ⟨macros, false, [title, options]⟩ := by
  have quote : printable '"' = false := by decide
  have shape : quotedLine title options = quoteToken title ++ "    ".toList ++ (quoteToken options ++ []) := by
    rw [quoteToken, quoteToken, doubleQuotes_of_not_mem (not_mem_of_all printTitle quote),
      doubleQuotes_of_not_mem (not_mem_of_all printOptions quote), quotedLine, List.append_nil]
    simp
  have whole : cString (quotedLine title options) = quotedLine title options := by
    apply List.takeWhile_eq_self_iff.mpr
    intro c mem
    apply decide_eq_true
    rintro rfl
    have null : printable '\x00' = false := by decide
    rw [quotedLine, List.mem_append, List.mem_append, List.mem_append, List.mem_cons] at mem
    rcases mem with ((((first | title) | between) | options) | last)
    · cases first
    · exact not_mem_of_all printTitle null title
    · exact absurd between (by decide)
    · exact not_mem_of_all printOptions null options
    · exact absurd (List.mem_singleton.mp last) (by decide)
  have blank : isBetween ' ' = true := by decide
  have read : lineLoop false (quotedLine title options) = ([title, options], false) := by
    have first : ("    ".toList ++ (quoteToken options ++ [])).head? = some ' ' := rfl
    rw [shape, List.append_assoc, lineLoop_quoteToken title (by rw [first]; decide)]
    have blanks : ∀ rest, lineLoop false ("    ".toList ++ rest) = lineLoop false rest := fun rest => by
      rw [← lineLoop_between blank rest, ← lineLoop_between blank (' ' :: rest),
        ← lineLoop_between blank (' ' :: ' ' :: rest), ← lineLoop_between blank (' ' :: ' ' :: ' ' :: rest)]
      rfl
    rw [blanks, lineLoop_quoteToken options (by decide), lineLoop_nil]
  rw [readTokens, whole, read]
  dsimp only
  rw [macroDefName_of_not_mem noMacro, List.map_cons, List.map_cons, List.map_nil,
    expandConfigMacros_of_not_mem noMacro, stable]

/-! ### Reading lines back -/

theorem readBack_text (build : BuildNames) (macros : Macros) (text : Option Str) :
    readBack build macros text = (tokenLines build macros (pieces endsLine (text.getD [] ++ ['\x00']))).2 := by
  cases text with
  | some text => rfl
  | none =>
    have one : pieces endsLine ['\x00'] = [['\x00']] := by
      rw [pieces_of_ne_nil _ (by decide)]
      have rest : behind endsLine ['\x00'] = [] := by decide
      rw [rest, pieces_nil]
      decide
    have nothing : readTokens build macros false ['\x00'] = ⟨macros, false, []⟩ := by
      have empty : cString ['\x00'] = [] := by decide
      rw [readTokens, empty, lineLoop_nil]
      rfl
    rw [Option.getD_none, List.nil_append, one, readBack, madeLines, tokenLines_eq, tokenLines_eq, lineReads,
      lineReads, nothing]
    rfl

/-- Lines that are read as tokens and leave the macros as they are. -/
theorem readBack_lines {build : BuildNames} {macros : Macros} {lines : List Str} (tokens : Str → List Str)
    (some : ∀ line ∈ lines, tokens line ≠ [])
    (each : ∀ line ∈ lines,
      IsPiece endsLine line ∧ readTokens build macros false line = ⟨macros, false, tokens line⟩)
    {text : Option Str} (made : text.getD [] = lines.flatMap (· ++ ['\n'])) :
    readBack build macros text = lines.map tokens := by
  have split : pieces endsLine (text.getD [] ++ ['\x00']) = lines ++ pieces endsLine ['\x00'] := by
    rw [made]
    exact pieces_lines (fun line mem => (each line mem).1) (by decide) (by rintro y ⟨⟩; decide)
  have reads : ∀ tail, lineReads build macros false (lines ++ tail) =
      lines.map (fun line => ⟨macros, false, tokens line⟩) ++ lineReads build macros false tail := by
    intro tail
    clear made split
    induction lines with
    | nil => rfl
    | cons line lines ih =>
      rw [List.cons_append, lineReads, (each line List.mem_cons_self).2]
      dsimp only
      rw [Bool.and_false, ih (fun line mem => some line (List.mem_cons_of_mem _ mem))
        (fun line mem => each line (List.mem_cons_of_mem _ mem)), List.map_cons, List.cons_append]
  have nothing : readBack build macros none = [] := by
    rw [readBack, madeLines, tokenLines_eq]
    rfl
  have last : ((lineReads build macros false (pieces endsLine ['\x00'])).map LineRead.tokens).filter (· ≠ []) =
      [] := by
    rwa [readBack_text, Option.getD_none, List.nil_append, tokenLines_eq] at nothing
  have all : (lines.map (LineRead.tokens ∘ fun line => (⟨macros, false, tokens line⟩ : LineRead))).filter
      (· ≠ []) = lines.map tokens := by
    apply List.filter_eq_self.mpr
    intro read mem
    obtain ⟨line, here, rfl⟩ := List.mem_map.mp mem
    exact decide_eq_true (some line here)
  rw [readBack_text, split, tokenLines_eq, reads, List.map_append, List.filter_append, last, List.map_map]
  dsimp only
  rw [all, List.append_nil]

/-! ### The text that is made -/

/-- The lines that the tokens of one line add. -/
def addedLines (tokens : List Str) : List Str :=
  match fstabRoot tokens with
  | none => []
  | some root =>
    [quotedLine defaultTitle (bootOptions root (subvolFromTokens tokens) []),
      quotedLine singleUserTitle (bootOptions root (subvolFromTokens tokens) singleMode)]

theorem mergeStrings_append (first : Option Str) (second : Str) :
    mergeStrings first second none = first.getD [] ++ second := by
  cases first with
  | none => rfl
  | some first =>
    cases first with
    | nil => rfl
    | cons c first =>
      rw [mergeStrings]
      · rw [Option.toList_none, List.append_nil]
        rfl
      · rintro ⟨⟩

theorem addFstabTokens_text (options : Option Str) (tokens : List Str) :
    (addFstabTokens options tokens).getD [] =
      options.getD [] ++ (addedLines tokens).flatMap (· ++ ['\n']) := by
  rw [addFstabTokens, addedLines]
  cases fstabRoot tokens with
  | none => rw [List.flatMap_nil, List.append_nil]
  | some root =>
    dsimp only
    rw [Option.getD_some, mergeStrings_append, mergeStrings_append, Option.getD_some, optionsLine_eq,
      optionsLine_eq, List.append_assoc, List.flatMap_cons, List.flatMap_cons, List.flatMap_nil,
      List.append_nil]

theorem foldl_addFstabTokens_text (lines : List (List Str)) (options : Option Str) :
    ((lines.filter (· ≠ [])).foldl addFstabTokens options).getD [] =
      options.getD [] ++ (lines.flatMap addedLines).flatMap (· ++ ['\n']) := by
  induction lines generalizing options with
  | nil => exact (List.append_nil _).symm
  | cons tokens lines ih =>
    rw [List.flatMap_cons, List.flatMap_append]
    by_cases empty : tokens = []
    · rw [List.filter_cons_of_neg (by simpa using empty), ih, empty]
      rfl
    · rw [List.filter_cons_of_pos (by simpa using empty), List.foldl_cons, ih, addFstabTokens_text,
        List.append_assoc]

theorem lineReads_length (build : BuildNames) (macros : Macros) (isQuoted : Bool) (lines : List Str) :
    (lineReads build macros isQuoted lines).length = lines.length := by
  induction lines generalizing macros isQuoted with
  | nil => rfl
  | cons line lines ih => rw [lineReads, List.length_cons, ih, List.length_cons]

theorem generated_text (build : BuildNames) (macros : Macros) (lines : List Str) :
    (generateOptionsFromEtcFstab build macros lines).2.getD [] =
      ((fstabReads build macros lines).flatMap (addedLines ·.2)).flatMap (· ++ ['\n']) := by
  have tokens : (fstabReads build macros lines).map Prod.snd =
      (lineReads build macros false lines).map LineRead.tokens := by
    refine List.map_snd_zip ?_
    rw [List.length_map, List.length_map, lineReads_length]
  have byLine : (fstabReads build macros lines).flatMap (addedLines ·.2) =
      ((lineReads build macros false lines).map LineRead.tokens).flatMap addedLines := by
    rw [← tokens, List.flatMap_map]
  rw [generateOptionsFromEtcFstab, tokenLines_eq, foldl_addFstabTokens_text, byLine]
  rfl

/-- What the tokens give is text that can be read back. -/
def WellMade (build : BuildNames) (macros : Macros) (tokens : List Str) : Prop :=
  ∀ root ∈ fstabRoot tokens, (' ' ∉ root ∧ root.all printable = true) ∧
    (∀ path ∈ subvolFromTokens tokens, ' ' ∉ path ∧ path.all printable = true) ∧
    ∀ mode ∈ [[], singleMode], expandConfigMacros build macros (bootOptions root (subvolFromTokens tokens) mode) =
      bootOptions root (subvolFromTokens tokens) mode

section
variable {build : BuildNames} {macros : Macros} {tokens : List Str}

theorem WellMade.read {root : Str} (well : WellMade build macros tokens) (found : fstabRoot tokens = some root)
    {title mode : Str} (known : title ∈ [defaultTitle, singleUserTitle]) (knownMode : mode ∈ [[], singleMode]) :
    let options := bootOptions root (subvolFromTokens tokens) mode
    IsPiece endsLine (quotedLine title options) ∧
      readTokens build macros false (quotedLine title options) = ⟨macros, false, [title, options]⟩ := by
  obtain ⟨plainRoot, plainSubvol, stable⟩ := well root found
  have titles : title.all printable = true ∧ '$' ∉ title := by
    rcases List.mem_cons.mp known with rfl | known
    · exact ⟨by decide, by decide⟩
    · rw [List.mem_singleton.mp known]
      exact ⟨by decide, by decide⟩
  have options := bootOptions_all (by decide) plainRoot.2 (fun path mem => (plainSubvol path mem).2) knownMode
  exact ⟨quotedLine_piece titles.1 options,
    readTokens_quotedLine titles.1 options titles.2 (stable mode knownMode)⟩

theorem WellMade.lines (well : WellMade build macros tokens) : ∀ line ∈ addedLines tokens,
    IsPiece endsLine line ∧ (readTokens build macros false line).tokens ≠ [] ∧
      readTokens build macros false line = ⟨macros, false, (readTokens build macros false line).tokens⟩ := by
  intro line mem
  rw [addedLines] at mem
  cases found : fstabRoot tokens with
  | none => rw [found] at mem; cases mem
  | some root =>
    rw [found] at mem
    have known : ∃ title ∈ [defaultTitle, singleUserTitle], ∃ mode ∈ [[], singleMode],
        line = quotedLine title (bootOptions root (subvolFromTokens tokens) mode) := by
      rcases List.mem_cons.mp mem with rfl | mem
      · exact ⟨_, List.mem_cons_self, _, List.mem_cons_self, rfl⟩
      · rw [List.mem_singleton.mp mem]
        exact ⟨_, List.mem_cons_of_mem _ List.mem_cons_self, _, List.mem_cons_of_mem _ List.mem_cons_self, rfl⟩
    obtain ⟨title, knownTitle, mode, knownMode, rfl⟩ := known
    obtain ⟨piece, read⟩ := well.read found knownTitle knownMode
    rw [read]
    exact ⟨piece, List.cons_ne_nil _ _, rfl⟩

theorem WellMade.linesFor (well : WellMade build macros tokens) :
    linesFor build macros tokens =
      (addedLines tokens).map fun line => (readTokens build macros false line).tokens := by
  refine readBack_lines _ (fun line mem => (well.lines line mem).2.1) (fun line mem => ?_) ?_
  · exact ⟨(well.lines line mem).1, (well.lines line mem).2.2⟩
  · rw [addFstabTokens_text]
    rfl

theorem WellMade.linesFor_some {root : Str} (well : WellMade build macros tokens)
    (found : fstabRoot tokens = some root) :
    Config.linesFor build macros tokens =
      [[defaultTitle, bootOptions root (subvolFromTokens tokens) []],
        [singleUserTitle, bootOptions root (subvolFromTokens tokens) singleMode]] := by
  have first := (well.read found List.mem_cons_self List.mem_cons_self).2
  have second := (well.read found (List.mem_cons_of_mem _ List.mem_cons_self)
    (List.mem_cons_of_mem _ List.mem_cons_self)).2
  rw [well.linesFor, addedLines, found]
  dsimp only
  rw [List.map_cons, List.map_cons, List.map_nil, first, second]

theorem linesFor_none (found : fstabRoot tokens = none) : linesFor build macros tokens = [] := by
  rw [Config.linesFor, addFstabTokens, found, readBack, madeLines, tokenLines_eq]
  rfl

/-- Whether lines that can be read back are the right ones. -/
theorem WellMade.rightLines_iff (well : WellMade build macros tokens) (line : Str) :
    RightLines line (Config.linesFor build macros tokens) ↔
      match rootEntry line with
      | none => fstabRoot tokens = none
      | some entry => fstabRoot tokens = some entry.device ∧ (subvolFromTokens tokens).toList = entry.subvols := by
  rw [RightLines]
  cases found : fstabRoot tokens with
  | none =>
    rw [linesFor_none found]
    cases rootEntry line with
    | none => exact ⟨fun _ => rfl, fun _ => rfl⟩
    | some entry =>
      constructor
      · rintro ⟨title, options, title', options', read, _⟩
        cases read
      · rintro ⟨impossible, _⟩
        cases impossible
  | some root =>
    obtain ⟨plainRoot, plainSubvol, -⟩ := well root found
    have starts : ∀ entry mode, mode ∈ [[], singleMode] →
        (Starts entry (bootOptions root (subvolFromTokens tokens) mode) ↔
          root = entry.device ∧ (subvolFromTokens tokens).toList = entry.subvols) := fun entry mode known =>
      starts_iff plainRoot.1 (fun path mem => (plainSubvol path mem).1) known
    rw [well.linesFor_some found]
    cases rootEntry line with
    | none => exact ⟨fun impossible => (nomatch impossible), fun impossible => (nomatch impossible)⟩
    | some entry =>
      dsimp only
      rw [Option.some.injEq]
      constructor
      · rintro ⟨title, options, title', options', read, right, _⟩
        obtain ⟨first, -⟩ := List.cons.inj read
        obtain ⟨-, first⟩ := List.cons.inj first
        obtain ⟨rfl, -⟩ := List.cons.inj first
        exact (starts entry [] List.mem_cons_self).mp right
      · intro same
        exact ⟨_, _, _, _, rfl, (starts entry [] List.mem_cons_self).mpr same,
          (starts entry singleMode (List.mem_cons_of_mem _ List.mem_cons_self)).mpr same⟩

end

/-- All of the text is read back when each part of it can be. -/
theorem whole_of_wellMade {build : BuildNames} {macros : Macros} {lines : List Str}
    (well : ∀ read ∈ fstabReads build macros lines,
      WellMade build (generateOptionsFromEtcFstab build macros lines).1 read.2) :
    let made := generateOptionsFromEtcFstab build macros lines
    readBack build made.1 made.2 =
      (fstabReads build macros lines).flatMap fun read => linesFor build made.1 read.2 := by
  intro made
  have all : ∀ line ∈ (fstabReads build macros lines).flatMap (addedLines ·.2),
      ∃ read ∈ fstabReads build macros lines, line ∈ addedLines read.2 := fun line mem => List.mem_flatMap.mp mem
  rw [readBack_lines (fun line => (readTokens build made.1 false line).tokens) _ _
    (generated_text build macros lines), List.map_flatMap]
  · refine List.flatMap_congr fun read mem => ?_
    exact (well read mem).linesFor.symm
  · intro line mem
    obtain ⟨read, here, added⟩ := all line mem
    exact ((well read here).lines line added).2.1
  · intro line mem
    obtain ⟨read, here, added⟩ := all line mem
    exact ⟨((well read here).lines line added).1, ((well read here).lines line added).2.2⟩

/-! ### Characters of the table -/

theorem fstabFields_char {line field : Str} (mem : field ∈ fstabFields line) {c : Char} (inside : c ∈ field) :
    c ≠ ' ' ∧ c ∈ line := by
  have blank : c ≠ ' ' := by
    rintro rfl
    exact not_mem_of_mem_words _ mem inside
  obtain ⟨d, here, same⟩ := List.mem_map.mp (subset_of_mem_words _ mem inside)
  refine ⟨blank, ?_⟩
  split at same
  · exact absurd same.symm blank
  · exact same ▸ here

theorem rootEntry_char {line : Str} {entry : RootEntry} (found : rootEntry line = some entry) :
    (∀ c ∈ entry.device, c ≠ ' ' ∧ c ∈ line) ∧ ∀ path ∈ entry.subvols, ∀ c ∈ path, c ≠ ' ' ∧ c ∈ line := by
  rw [rootEntry] at found
  split at found
  · rename_i device mountPoint rest fields
    have inFields : ∀ field ∈ device :: mountPoint :: rest, ∀ c ∈ field, c ≠ ' ' ∧ c ∈ line :=
      fun field mem c inside => fstabFields_char (fields ▸ mem) inside
    split at found
    · cases found
    · split at found
      · obtain rfl := Option.some.inj found
        refine ⟨inFields device List.mem_cons_self, ?_⟩
        intro path mem c inside
        obtain ⟨option, listed, taken⟩ := List.mem_filterMap.mp mem
        split at taken
        · obtain rfl := Option.some.inj taken
          have inOptions := subset_of_mem_words _ listed ((List.drop_sublist 7 option).subset inside)
          cases given : rest[1]? with
          | none =>
            rw [List.getD_eq_getElem?_getD, given] at inOptions
            cases inOptions
          | some field =>
            rw [List.getD_eq_getElem?_getD, given] at inOptions
            exact inFields field (List.mem_cons_of_mem _ (List.mem_cons_of_mem _ (List.mem_of_getElem? given))) c
              inOptions
        · cases taken
      · cases found
  · cases found

theorem cString_char {fstab line : Str} (mem : line ∈ pieces endsLine fstab) {c : Char}
    (inside : c ∈ cString line) : c ≠ '\x00' ∧ endsLine c = false ∧ c ∈ fstab := by
  have inLine : c ∈ line := (List.takeWhile_sublist _).subset inside
  have kept : c ∈ fstab.filter (!endsLine ·) := by
    rw [← pieces_flatten]
    exact List.mem_flatten.mpr ⟨line, mem, inLine⟩
  have notNull := List.mem_takeWhile_imp (p := fun c => decide (c ≠ '\x00')) inside
  exact ⟨of_decide_eq_true notNull, not_end_of_mem_pieces mem inLine, (List.mem_filter.mp kept).1⟩

theorem LinesUp.wellMade {build : BuildNames} {macros : Macros} {fstab line : Str} {entry : RootEntry}
    {tokens : List Str} (h : LinesUp build macros entry tokens) (mem : line ∈ pieces endsLine fstab)
    (found : rootEntry (cString line) = some entry) : WellMade build macros tokens := by
  obtain ⟨deviceChars, pathChars⟩ := rootEntry_char found
  have prints : ∀ text : Str, '"' ∉ text → (∀ c ∈ text, c ≠ ' ' ∧ c ∈ cString line) →
      ' ' ∉ text ∧ text.all printable = true := by
    intro text noQuote chars
    refine ⟨fun blank => (chars ' ' blank).1 rfl, List.all_eq_true.mpr ?_⟩
    intro c inside
    obtain ⟨notNull, notEnd, -⟩ := cString_char mem (chars c inside).2
    have notQuote : c ≠ '"' := by
      rintro rfl
      exact noQuote inside
    rw [printable, notEnd, decide_eq_true notQuote, decide_eq_true notNull]
    rfl
  intro root rootMem
  obtain rfl := Option.some.inj ((Option.mem_def.mp rootMem).symm.trans h.root)
  refine ⟨prints _ h.plainDevice deviceChars, ?_, h.stable⟩
  intro path pathMem
  have listed : path ∈ entry.subvols := h.subvols ▸ Option.mem_toList.mpr pathMem
  exact prints _ (h.plainSubvols path listed) (pathChars path listed)

/-! ### Tables without quotes and macros -/

section
variable {build : BuildNames} {macros : Macros}

theorem readTokens_plain {line : Str} (noQuote : '"' ∉ cString line) (noMacro : '$' ∉ cString line) :
    readTokens build macros false line = ⟨macros, false, (lineLoop false (cString line)).1⟩ := by
  obtain ⟨unquoted, chars⟩ := lineLoop_noQuote noQuote
  have noDollar : ∀ token ∈ (lineLoop false (cString line)).1, '$' ∉ token := by
    intro token mem inside
    rcases (chars token mem '$' inside).2.2 with here | impossible
    · exact noMacro here
    · cases impossible
  have expanded : (lineLoop false (cString line)).1.map (expandConfigMacros build macros) =
      (lineLoop false (cString line)).1 :=
    (List.map_congr_left fun token mem => expandConfigMacros_of_not_mem (noDollar token mem)).trans
      (List.map_id _)
  rw [readTokens, unquoted]
  split
  · rename_i first second more tokens
    rw [macroDefName_of_not_mem (noDollar first (tokens ▸ List.mem_cons_self)), ← tokens, expanded]
  · rw [expanded]

theorem fstabReads_plain (build : BuildNames) (macros : Macros) {lines : List Str}
    (noQuote : ∀ line ∈ lines, '"' ∉ cString line)
    (noMacro : ∀ line ∈ lines, '$' ∉ cString line) :
    fstabReads build macros lines =
      lines.map fun line => (cString line, (lineLoop false (cString line)).1) := by
  have reads : lineReads build macros false lines =
      lines.map fun line => ⟨macros, false, (lineLoop false (cString line)).1⟩ := by
    induction lines with
    | nil => rfl
    | cons line lines ih =>
      rw [lineReads, readTokens_plain (noQuote line List.mem_cons_self) (noMacro line List.mem_cons_self)]
      dsimp only
      rw [Bool.and_false, ih (fun line mem => noQuote line (List.mem_cons_of_mem _ mem))
        (fun line mem => noMacro line (List.mem_cons_of_mem _ mem)), List.map_cons]
  rw [fstabReads, reads, List.map_map, List.zip_map']
  rfl

theorem fstabRoot_char {tokens : List Str} {root : Str} (found : fstabRoot tokens = some root) {c : Char}
    (inside : c ∈ root) : c = '=' ∨ ∃ token ∈ tokens, ∃ d ∈ token, restoreSlash d = c := by
  unfold fstabRoot at found
  split at found
  · rename_i first second third rest
    obtain ⟨taken, filtered, rfl⟩ := Option.map_eq_some_iff.mp found
    obtain ⟨d, here, rfl⟩ := List.mem_map.mp inside
    obtain ⟨taken', -⟩ := Option.filter_eq_some_iff.mp filtered
    split at taken'
    · obtain rfl := Option.some.inj taken'
      exact Or.inr ⟨_, List.mem_cons_self, d, here, rfl⟩
    · split at taken'
      · obtain rfl := Option.some.inj taken'
        rcases List.mem_append.mp here with here | here
        · exact Or.inr ⟨_, List.mem_cons_self, d, here, rfl⟩
        · rcases List.mem_cons.mp here with rfl | here
          · exact Or.inl rfl
          · exact Or.inr ⟨_, List.mem_cons_of_mem _ List.mem_cons_self, d, here, rfl⟩
      · cases taken'
  · cases found

theorem subvolFromTokens_char {tokens : List Str} {path : Str} (found : subvolFromTokens tokens = some path)
    {c : Char} (inside : c ∈ path) : ∃ token ∈ tokens, ∃ d ∈ token, restoreSlash d = c := by
  fun_induction subvolFromTokens tokens with
  | case1 key value rest other ih =>
    obtain ⟨token, mem, d, here, same⟩ := ih found
    exact ⟨token, List.mem_cons_of_mem _ mem, d, here, same⟩
  | case2 => cases found
  | case3 key value rest here some =>
    obtain rfl := Option.some.inj found
    obtain ⟨d, here, rfl⟩ := List.mem_map.mp inside
    exact ⟨value, List.mem_cons_of_mem _ List.mem_cons_self, d, here, rfl⟩
  | case4 => cases found

theorem wellMade_plain (build : BuildNames) (macros : Macros) {fstab line : Str}
    (mem : line ∈ pieces endsLine fstab) (noQuote : '"' ∉ fstab) (noMacro : '$' ∉ fstab) :
    WellMade build macros (lineLoop false (cString line)).1 := by
  have noQuoteLine : '"' ∉ cString line := fun inside => noQuote (cString_char mem inside).2.2
  obtain ⟨-, chars⟩ := lineLoop_noQuote noQuoteLine
  let fine : Char → Bool := fun c => c ≠ ' ' && c ≠ '$' && printable c
  have fromToken : ∀ token ∈ (lineLoop false (cString line)).1, ∀ d ∈ token, fine (restoreSlash d) = true := by
    intro token listed d inside
    obtain ⟨between, notQuote, from'⟩ := chars token listed d inside
    rw [restoreSlash]
    split
    · decide
    · rename_i other
      have inLine := from'.resolve_right other
      obtain ⟨notNull, notEnd, inTable⟩ := cString_char mem inLine
      have notBlank : d ≠ ' ' := by
        rintro rfl
        cases between
      have notDollar : d ≠ '$' := by
        rintro rfl
        exact noMacro inTable
      simp only [fine, printable, notEnd, decide_eq_true notQuote, decide_eq_true notNull,
        decide_eq_true notBlank, decide_eq_true notDollar]
      rfl
  have parts : ∀ text : Str, text.all fine = true →
      (' ' ∉ text ∧ text.all printable = true) ∧ text.all (· ≠ '$') := by
    intro text all
    refine ⟨⟨not_mem_of_all all (by decide), ?_⟩, ?_⟩
    · exact List.all_eq_true.mpr fun c inside => (Bool.and_eq_true_iff.mp (List.all_eq_true.mp all c inside)).2
    · refine List.all_eq_true.mpr fun c inside => ?_
      exact (Bool.and_eq_true_iff.mp (Bool.and_eq_true_iff.mp (List.all_eq_true.mp all c inside)).1).2
  intro root found
  have fineRoot : root.all fine = true := by
    refine List.all_eq_true.mpr fun c inside => ?_
    rcases fstabRoot_char found inside with rfl | ⟨token, listed, d, here, rfl⟩
    · decide
    · exact fromToken token listed d here
  have finePath : ∀ path ∈ subvolFromTokens (lineLoop false (cString line)).1, path.all fine = true := by
    intro path taken
    refine List.all_eq_true.mpr fun c inside => ?_
    obtain ⟨token, listed, d, here, rfl⟩ := subvolFromTokens_char taken inside
    exact fromToken token listed d here
  refine ⟨(parts root fineRoot).1, fun path taken => (parts path (finePath path taken)).1, ?_⟩
  intro mode known
  have noDollar := bootOptions_all (p := fun c => c ≠ '$') (by decide) (parts root fineRoot).2
    (fun path taken => (parts path (finePath path taken)).2) known
  exact expandConfigMacros_of_not_mem (not_mem_of_all noDollar (by decide))

end

/-! ### Main result -/

/-- A table whose root has a label that is taken for a mount option. -/
def labelFstab : Str := "LABEL=subvol / ext4 defaults 0 1\n".toList

end Meridian.Config
