import RemarkAtlas.Proofs.Disk.Naming
import RemarkAtlas.Proofs.Html.Site

/-!
Every page of a report has a name that a file in the report's directory can have: whatever the names
of passes and source files are, no slash is left in it.  Distinct passes have pages of distinct
names, none of them that of an overview; a source file can have a page with the name of another
page.
-/

namespace RemarkAtlas.Html

theorem isName_html (start : List Char) (noSlash : '/' ∉ start) :
    IsName (String.ofList start ++ ".html" : String) := by
  have long : ".html".toList.length ≤ (String.ofList start ++ ".html").toList.length := by simp
  refine .of_text ?_ ⟨?_, ?_, ?_⟩
  · rw [String.toList_append, String.toList_ofList, List.mem_append, not_or]
    exact ⟨noSlash, by decide⟩
  all_goals
    intro same
    rw [same] at long
    exact absurd long (by decide)

theorem isName_sourcePage (file : String) : IsName (sourcePage file) := by
  refine isName_html _ ?_
  intro slash
  obtain ⟨char, _, renamed⟩ := List.mem_map.mp slash
  split at renamed
  · exact absurd renamed (by decide)
  · contradiction

def isPageChar (char : Char) : Bool := char.isAlphanum || char == '-' || char == '_'

theorem isPageChar_pageByte {byte : UInt8} : ∀ char ∈ pageByte byte, isPageChar char = true := by
  have bytes : ∀ number < 256, (pageByte (UInt8.ofNat number)).all isPageChar = true := by
    decide +kernel
  have plain := bytes byte.toNat byte.toNat_lt
  rw [UInt8.ofNat_toNat] at plain
  exact List.all_eq_true.mp plain

def passStem (name : String) : List Char := "pass-".toList ++ (Utf8.encode name).flatMap pageByte

theorem passPage_eq (name : String) : passPage name = String.ofList (passStem name) ++ ".html" := by
  rw [passPage, ← String.toList_inj]
  simp [passStem]

theorem isPageChar_passStem {name : String} : ∀ char ∈ passStem name, isPageChar char = true := by
  have stem : "pass-".toList.all isPageChar = true := by decide
  refine List.forall_mem_append.mpr ⟨List.all_eq_true.mp stem, fun char member => ?_⟩
  obtain ⟨byte, _, inside⟩ := List.mem_flatMap.mp member
  exact isPageChar_pageByte char inside

theorem not_mem_passStem {name : String} {char : Char} (notPageChar : isPageChar char = false) :
    char ∉ passStem name :=
  fun member => absurd (isPageChar_passStem char member) (by simp [notPageChar])

theorem isName_passPage (name : String) : IsName (passPage name) := by
  rw [passPage_eq]
  exact isName_html _ (not_mem_passStem (by decide))

theorem isName_page {policy : PrecisionPolicy} {sources : CompilerSources}
    {units : List CompilationUnit} {page : Page} (isPage : IsPage policy sources units page) :
    IsName page.name := by
  cases isPage with
  | records => exact isName_html "index".toList (by decide)
  | functions => exact isName_html "functions".toList (by decide)
  | passes => exact isName_html "passes".toList (by decide)
  | pass _ _ => exact isName_passPage _
  | source _ _ => exact isName_sourcePage _

def pageBytes : List Char → List UInt8
  | '_' :: high :: low :: rest =>
    let digits := "0123456789abcdef".toList
    UInt8.ofNat (16 * digits.idxOf high + digits.idxOf low) :: pageBytes rest
  | char :: rest => UInt8.ofNat char.toNat :: pageBytes rest
  | [] => []

theorem pageBytes_pageByte (byte : UInt8) (rest : List Char) :
    pageBytes (pageByte byte ++ rest) = byte :: pageBytes rest := by
  have plainBytes : ∀ number < 256, isPageByte (UInt8.ofNat number) = true →
      Char.ofNat number ≠ '_' ∧ UInt8.ofNat (Char.ofNat number).toNat = UInt8.ofNat number := by
    decide +kernel
  have codes : ∀ number < 256,
      UInt8.ofNat (16 * "0123456789abcdef".toList.idxOf (Nat.digitChar (number / 16)) +
        "0123456789abcdef".toList.idxOf (Nat.digitChar (number % 16))) = UInt8.ofNat number := by
    decide +kernel
  rw [pageByte]
  split
  case isTrue plain =>
    obtain ⟨notMark, same⟩ := plainBytes byte.toNat byte.toNat_lt (by rwa [UInt8.ofNat_toNat])
    rw [List.singleton_append, pageBytes, same, UInt8.ofNat_toNat]
    rintro high low rest' isMark -
    exact notMark isMark
  case isFalse =>
    have same := codes byte.toNat byte.toNat_lt
    rw [UInt8.ofNat_toNat] at same
    simp only [List.cons_append, List.nil_append, pageBytes, same]

theorem pageBytes_flatMap (bytes : Bytes) : pageBytes (bytes.flatMap pageByte) = bytes := by
  induction bytes with
  | nil => rfl
  | cons byte bytes ih => rw [List.flatMap_cons, pageBytes_pageByte, ih]

theorem passPage_injective {left right : String} (same : passPage left = passPage right) :
    left = right := by
  have stems := congrArg String.toList same
  simp only [passPage, String.toList_append, List.append_cancel_right_eq, List.append_cancel_left_eq,
    String.toList_ofList] at stems
  have bytes := congrArg pageBytes stems
  rw [pageBytes_flatMap, pageBytes_flatMap] at bytes
  exact Utf8.encode_injective bytes

theorem passPage_ne_overview (name : String) : passPage name ∉ overviews := by
  have starts : (passPage name).toList.take 5 = "pass-".toList := by simp [passPage]
  have others : ∀ overview ∈ overviews, overview.toList.take 5 ≠ "pass-".toList := by decide
  exact fun member => others _ member starts

/-- Distinct passes have distinct pages: what stands between the start and the ending of the name is
the code of one byte string only, and decoding it gives the name of the pass back. -/
theorem passPage_decodes (name : String) :
    (∀ other, passPage other = passPage name ↔ other = name) ∧
    (∃ middle, (passPage name).toList = "pass-".toList ++ middle ++ ".html".toList ∧
      (∀ bytes : Bytes, bytes.flatMap pageByte = middle ↔ bytes = Utf8.encode name) ∧
      Utf8.decode (pageBytes middle) = some name) ∧
    (∀ char ∈ (passPage name).toList,
      char.isAlphanum = true ∨ char = '-' ∨ char = '_' ∨ char = '.') ∧
    passPage name ∉ ["index.html", "functions.html", "passes.html"] := by
  refine ⟨fun other => ⟨passPage_injective, congrArg passPage⟩, ?_, fun char member => ?_,
    passPage_ne_overview name⟩
  · refine ⟨(Utf8.encode name).flatMap pageByte, by simp [passPage], fun bytes => ⟨fun same => ?_,
      fun same => same ▸ rfl⟩, ?_⟩
    · rw [← pageBytes_flatMap bytes, same, pageBytes_flatMap]
    · rw [pageBytes_flatMap, Utf8.decode_encode]
  · rw [passPage_eq, String.toList_append, String.toList_ofList, List.mem_append] at member
    rcases member with inStem | inEnding
    · have plain := isPageChar_passStem char inStem
      simp only [isPageChar, Bool.or_eq_true, beq_iff_eq, or_assoc] at plain
      exact plain.imp_right fun marks => marks.imp_right Or.inl
    · have ending : ".html".toList.all (fun char => char.isAlphanum || char == '.') = true := rfl
      have plain := List.all_eq_true.mp ending char inEnding
      simp only [Bool.or_eq_true, beq_iff_eq] at plain
      exact plain.imp_right fun point => Or.inr (Or.inr point)

example : passPage "*" = "pass-_2a.html" ∧ passPage "_2a" = "pass-_5f2a.html" := by decide

def withoutSlashes (text : List Char) : List Char :=
  text.map fun char => if char = '/' then '|' else char

theorem sourcePage_eq_html {file : String} {stem : List Char} :
    sourcePage file = String.ofList stem ++ ".html" ↔ withoutSlashes file.toList = stem := by
  rw [← String.toList_inj, sourcePage, ← withoutSlashes]
  simp

theorem sourcePage_inj {left right : String} :
    sourcePage left = sourcePage right ↔
      withoutSlashes left.toList = withoutSlashes right.toList := by
  rw [← sourcePage_eq_html]
  rfl

/-- A name without slashes and bars is taken only by the file that bears it. -/
theorem withoutSlashes_eq_iff {text stem : List Char} (noSlash : '/' ∉ stem) (noBar : '|' ∉ stem) :
    withoutSlashes text = stem ↔ text = stem := by
  have keeps : ∀ {text : List Char}, '/' ∉ text → withoutSlashes text = text := by
    intro text absent
    refine List.map_congr_left (fun char member => if_neg ?_) |>.trans (List.map_id text)
    rintro rfl
    exact absent member
  constructor
  · intro same
    have absent : '/' ∉ text := by
      intro slash
      refine noBar (same ▸ List.mem_map.mpr ⟨'/', slash, if_pos rfl⟩)
    rw [← same, keeps absent]
  · rintro rfl
    exact keeps noSlash

theorem sourcePage_eq_stem {file : String} {stem : List Char} (noSlash : '/' ∉ stem)
    (noBar : '|' ∉ stem) :
    sourcePage file = String.ofList stem ++ ".html" ↔ file = String.ofList stem := by
  rw [sourcePage_eq_html, withoutSlashes_eq_iff noSlash noBar, ← String.toList_inj,
    String.toList_ofList]

theorem sourcePage_eq_passPage {file name : String} :
    sourcePage file = passPage name ↔ file = String.ofList (passStem name) := by
  rw [passPage_eq]
  exact sourcePage_eq_stem (not_mem_passStem (by decide)) (not_mem_passStem (by decide))

theorem sourcePage_mem_overviews {file : String} :
    sourcePage file ∈ overviews ↔ file ∈ ["index", "functions", "passes"] := by
  have index := @sourcePage_eq_stem file "index".toList (by decide) (by decide)
  have functions := @sourcePage_eq_stem file "functions".toList (by decide) (by decide)
  have passes := @sourcePage_eq_stem file "passes".toList (by decide) (by decide)
  simp only [String.ofList_toList] at index functions passes
  simp only [overviews, List.mem_cons, List.not_mem_nil, or_false]
  exact or_congr index (or_congr functions passes)

section Names

variable (policy : PrecisionPolicy) (sources : CompilerSources) (units : List CompilationUnit)

def passNames : List String := (PassSummary.ofUnits units).filterMap (·.name)

def sourceFiles : List String := (Corpus.bySourceFile units).map Prod.fst

theorem nodup_passNames : (passNames units).Nodup := by
  have keys := Groups.nodup_keys (fun sighting => some sighting.passName?)
    (Corpus.allRecords units)
  have names_eq : passNames units =
      ((Groups.byKey (fun sighting => some sighting.passName?) (Corpus.allRecords units)).map
        Prod.fst).filterMap id := by
    rw [passNames, PassSummary.ofUnits, List.filterMap_map, List.filterMap_map]
    rfl
  rw [names_eq]
  refine keys.filterMap fun left right name isLeft isRight => ?_
  exact (Option.mem_def.mp isLeft).trans (Option.mem_def.mp isRight).symm

theorem nodup_sourceFiles : (sourceFiles units).Nodup := Groups.nodup_keys _ _

theorem names_pages :
    (pages policy sources units).map (·.name) =
      overviews ++ (passNames units).map passPage ++ (sourceFiles units).map sourcePage := by
  simp only [pages, List.map_append, List.map_map, passNames, sourceFiles]
  rfl

/-- No page of a source file has the name of another page: no two files differ in slashes and bars
only, and no file is named like an overview or like the page of a pass. -/
structure SourcesApart : Prop where
  files : ∀ left ∈ sourceFiles units, ∀ right ∈ sourceFiles units,
    withoutSlashes left.toList = withoutSlashes right.toList → left = right
  overviews : ∀ file ∈ sourceFiles units, file ∉ ["index", "functions", "passes"]
  passes : ∀ file ∈ sourceFiles units, ∀ name ∈ passNames units, file ≠ String.ofList (passStem name)

theorem nodup_sourcePages :
    ((sourceFiles units).map sourcePage).Nodup ↔
      ∀ left ∈ sourceFiles units, ∀ right ∈ sourceFiles units,
        withoutSlashes left.toList = withoutSlashes right.toList → left = right := by
  simp only [List.nodup_map_iff_inj_on (nodup_sourceFiles units), sourcePage_inj]

theorem nodup_names_pages :
    ((pages policy sources units).map (·.name)).Nodup ↔ SourcesApart units := by
  have overviewNames : overviews.Nodup := by decide
  have passPages : ((passNames units).map passPage).Nodup :=
    (nodup_passNames units).map fun _ _ => passPage_injective
  have passNotOverview : ∀ overview ∈ overviews, ∀ page ∈ (passNames units).map passPage,
      overview ≠ page := by
    rintro overview isOverview page isPage rfl
    obtain ⟨name, _, rfl⟩ := List.mem_map.mp isPage
    exact passPage_ne_overview name isOverview
  have fixed : (overviews ++ (passNames units).map passPage).Nodup :=
    List.nodup_append.mpr ⟨overviewNames, passPages, passNotOverview⟩
  rw [names_pages, List.nodup_append, nodup_sourcePages]
  constructor
  · rintro ⟨_, files, others⟩
    refine ⟨files, fun file isFile isOverview => ?_, fun file isFile name isName same => ?_⟩
    · have taken := List.mem_append_left ((passNames units).map passPage)
        (sourcePage_mem_overviews.mpr isOverview)
      exact others _ taken _ (List.mem_map_of_mem isFile) rfl
    · have taken := List.mem_append_right overviews (List.mem_map_of_mem (f := passPage) isName)
      exact others _ taken _ (List.mem_map_of_mem isFile) (sourcePage_eq_passPage.mpr same).symm
  · rintro ⟨files, notOverview, notPass⟩
    refine ⟨fixed, files, ?_⟩
    rintro name isFixed page isPage rfl
    obtain ⟨file, isFile, rfl⟩ := List.mem_map.mp isPage
    rcases List.mem_append.mp isFixed with isOverview | isPass
    · exact notOverview file isFile (sourcePage_mem_overviews.mp isOverview)
    · obtain ⟨name, isName, same⟩ := List.mem_map.mp isPass
      exact notPass file isFile name isName (sourcePage_eq_passPage.mp same.symm)

theorem length_passNames :
    (passNames units).length =
      ((Corpus.allRecords units).filterMap Sighting.passName?).dedup.length := by
  refine List.Perm.length_eq ?_
  refine (List.perm_ext_iff_of_nodup (nodup_passNames units) (List.nodup_dedup _)).mpr ?_
  intro name
  rw [List.mem_dedup, List.mem_filterMap]
  exact mem_passNames

theorem length_sourceFiles :
    (sourceFiles units).length =
      ((Corpus.allRecords units).filterMap Sighting.file?).dedup.length := by
  rw [sourceFiles, List.length_map]
  exact Groups.length_byKey _ _

theorem length_pages :
    (pages policy sources units).length =
      3 + ((Corpus.allRecords units).filterMap Sighting.passName?).dedup.length +
        ((Corpus.allRecords units).filterMap Sighting.file?).dedup.length := by
  have names := congrArg List.length (names_pages policy sources units)
  rw [List.length_map, List.length_append, List.length_append, List.length_map, List.length_map,
    length_passNames, length_sourceFiles] at names
  exact names

end Names

end RemarkAtlas.Html
