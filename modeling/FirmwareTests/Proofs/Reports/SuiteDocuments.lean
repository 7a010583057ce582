import FirmwareTests.Proofs.Reports.SuiteName
import FirmwareTests.Proofs.Reports.TreeReport

/-!
# Documents with the same test cases

Whether a document of legible test cases gives a report, and with which error it is refused,
is decided by the names of its test cases: by the first of them that is no name of a test.
Neither the declared counts matter nor which cases fail, nor what the failures say. Retitling
such a document gives a document with the same test cases.
-/

namespace FirmwareTests

namespace Markup

/-! ### Splitting rows at elements -/

/-- A row of two nested rows, the latter of which begins with an element. Of the elements
that count, the given ones come before it and behind it. -/
inductive SplitsAt (p : Element → Bool) (e : Element) (front back : List Element) :
    List Token → Prop
  | intro {ts us : List Token} {f rest : Forest} (hts : Nests ts f)
      (hfront : f.elements.filter p = front) (hus : Nests us (.element e.tag e.content rest))
      (hback : rest.elements.filter p = back) : SplitsAt p e front back (ts ++ us)

section

variable {p : Element → Bool} {e : Element} {front back : List Element}
variable {ts us : List Token} {tag : Tag} {f content rest : Forest}

theorem SplitsAt.prepend (h : SplitsAt p e front back us) (hts : Nests ts f) :
    SplitsAt p e (f.elements.filter p ++ front) back (ts ++ us) := by
  cases h with
  | intro hbefore hfront hus hback =>
    rw [← List.append_assoc]
    refine .intro (hts.append hbefore) ?_ hus hback
    rw [Forest.elements_append, List.filter_append, hfront]

/-- The element at which a row splits is its first, or among those behind it. -/
theorem SplitsAt.of_element (hts : Nests ts (.element tag content .nil)) (hus : Nests us rest)
    (hrest : ∀ front, rest.elements.filter p = front ++ e :: back → SplitsAt p e front back us)
    (hsplit : (⟨tag, content⟩ :: rest.elements).filter p = front ++ e :: back) :
    SplitsAt p e front back (ts ++ us) := by
  by_cases hp : p ⟨tag, content⟩ = true
  · rw [List.filter_cons_of_pos hp] at hsplit
    cases front with
    | nil =>
      obtain ⟨rfl, hback⟩ := List.cons.inj hsplit
      have hwhole : SplitsAt p ⟨tag, content⟩ [] back ([] ++ (ts ++ us)) :=
        .intro .nil rfl (hts.append hus) hback
      exact hwhole
    | cons first front =>
      obtain ⟨rfl, htail⟩ := List.cons.inj hsplit
      have hprepend := (hrest front htail).prepend hts
      rwa [Forest.elements, Forest.elements, List.filter_cons_of_pos hp] at hprepend
  · rw [List.filter_cons_of_neg hp] at hsplit
    have hprepend := (hrest front hsplit).prepend hts
    rwa [Forest.elements, Forest.elements, List.filter_cons_of_neg hp] at hprepend

theorem Nests.splitsAt (h : Nests ts f) (hsplit : f.elements.filter p = front ++ e :: back) :
    SplitsAt p e front back ts := by
  induction h generalizing front with
  | nil => simp [Forest.elements] at hsplit
  | leaf hleaf _ ih =>
    have hfirst : Nests [_] (.leaf _ .nil) := .leaf hleaf .nil
    exact (ih hsplit).prepend hfirst
  | @empty tag ts rest hrest ih =>
    have hfirst : Nests [.empty tag] (.element tag .nil .nil) := .empty .nil
    exact .of_element hfirst hrest (fun _ => ih) hsplit
  | @element tag close inner ts content rest hcontent hrest _ ih =>
    have hfirst : Nests (.start tag :: (inner ++ [.close close])) (.element tag content .nil) :=
      .element hcontent .nil
    have hsplits := SplitsAt.of_element hfirst hrest (fun _ => ih) hsplit
    simpa using hsplits

end

section

variable {ts : List Token} {f : Forest}

theorem Nests.map_usual (h : Nests ts f) : Nests (ts.map Token.usual) f := by
  induction h with
  | nil => exact .nil
  | @leaf t ts rest hleaf _ ih =>
    have husual : t.usual = t := by
      cases t with
      | close => cases hleaf
      | _ => rfl
    rw [List.map_cons, husual]
    exact .leaf hleaf ih
  | empty _ ih => exact .empty ih
  | element _ _ ihcontent ih =>
    rw [List.map_cons, List.map_append, List.map_cons]
    exact .element ihcontent ih

theorem Nests.isLeaf (h : Nests ts f) (hnone : f.elements = []) : ∀ t ∈ ts, t.isLeaf = true := by
  induction h with
  | nil => simp
  | leaf hleaf _ ih => exact List.forall_mem_cons.mpr ⟨hleaf, ih hnone⟩
  | empty | element => cases hnone

theorem nests_ofLeaves (h : ∀ t ∈ ts, t.isLeaf = true) : Nests ts (.ofLeaves ts) := by
  induction ts with
  | nil => exact .nil
  | cons t ts ih =>
    obtain ⟨ht, hts⟩ := List.forall_mem_cons.mp h
    exact .leaf ht (ih hts)

theorem Forest.elements_ofLeaves (ts : List Token) : (Forest.ofLeaves ts).elements = [] := by
  induction ts with
  | nil => rfl
  | cons t ts ih => exact ih

theorem isLeaf_dropMark (h : ∀ t ∈ ts, t.isLeaf = true) : ∀ t ∈ dropMark ts, t.isLeaf = true := by
  intro t ht
  by_cases htext : t.isText = true
  · cases t with
    | text => rfl
    | _ => cases htext
  · exact h t (mem_of_mem_dropMark ht (by simpa using htext))

/-- The row of an element begins with its tag, and another tag may take its place. -/
theorem Nests.exists_tag {e : Element} {rest : Forest}
    (h : Nests ts (.element e.tag e.content rest)) : ∃ t us, ts = t :: us ∧ t.tag? = some e.tag ∧
      ∀ tag, Nests (t.withTag tag :: us) (.element tag e.content rest) := by
  obtain ⟨tag, content⟩ := e
  cases h with
  | empty hrest => exact ⟨.empty tag, _, rfl, rfl, fun _ => .empty hrest⟩
  | element hcontent hrest => exact ⟨.start tag, _, rfl, rfl, fun _ => .element hcontent hrest⟩

end

end Markup

namespace Reports

open Markup

/-! ### Retitled trees -/

/-- The tag of a root with another title. -/
structure RetitledTag (title : List Char) (old new : Tag) : Prop where
  name : new.name = rootName
  attributes : new.attributes = ⟨retitledAttributes title old.attributes.attributes, none⟩

namespace RetitledTag

variable {title : List Char} {old new : Tag}

theorem plain (h : RetitledTag title old new)
    (hnodup : (old.attributes.attributes.map Attribute.key).Nodup)
    (hplain : ∀ a ∈ old.attributes.attributes, a.Plain) :
    ∀ a ∈ new.attributes.attributes, a.Plain := by
  rw [h.attributes]
  exact forall_mem_retitledAttributes hnodup title (legible_titleAttribute title).plain hplain

theorem isSome_value? (h : RetitledTag title old new)
    (hnodup : (old.attributes.attributes.map Attribute.key).Nodup)
    (hfault : old.attributes.fault = none) {key : String} (hkey : (old.value? key).isSome) :
    (new.value? key).isSome := by
  have hold : old.attributes = ⟨old.attributes.attributes, none⟩ := by rw [← hfault]
  rw [value?_eq_of_attributes h.attributes]
  by_cases htitle : key.toList = titleKey
  · rw [htitle, find?_retitledAttributes_title hnodup]
    simp [titleAttribute, unescape_escape]
  · rw [find?_retitledAttributes_of_ne hnodup title htitle, ← value?_eq_of_attributes hold]
    exact hkey

end RetitledTag

section

variable {document : List Char} {root : Element} {later : List Element}

theorem exists_root_tokens (hcomplete : (read document).ending = .complete)
    (hclosed : openElements ((read document).tokens.map Located.token) = 0)
    (htop : topElements document = root :: later) : ∃ front back rest,
      (read document).tokens.map Located.token = front ++ back ∧
        (∀ t ∈ front, t.isLeaf = true) ∧
          Nests back (.element root.tag root.content rest) ∧ rest.elements = later := by
  have hread : read document = ⟨(read document).tokens, .complete⟩ := by rw [← hcomplete]
  obtain ⟨names, hnames⟩ := Option.isSome_iff_exists.mp (read_eq_complete_iff.mp hread).2
  rw [(openElements_eq_zero_iff hnames).mp hclosed] at hnames
  have hnests := nests_of_openNames hnames
  rw [topElements] at htop
  generalize Forest.ofTokens ((read document).tokens.map Located.token) = f at hnests htop
  generalize (read document).tokens.map Located.token = ts at hnests
  have hall (elements : List Element) : elements.filter (fun _ => true) = elements :=
    List.filter_eq_self.mpr fun _ _ => rfl
  have hsplits : SplitsAt (fun _ => true) root [] later ts :=
    hnests.splitsAt ((hall _).trans htop)
  cases hsplits with
  | @intro front back g rest hfront hnone hback hlater =>
    rw [hall] at hnone hlater
    exact ⟨front, back, rest, rfl, hfront.isLeaf hnone, hback, hlater⟩

/-- The tokens of a document split at each test case of its root, whose tag is open there. -/
theorem exists_testCase_tokens {before after : List Element} {testCase : Element}
    (hcomplete : (read document).ending = .complete)
    (hclosed : openElements ((read document).tokens.map Located.token) = 0)
    (htop : topElements document = root :: later)
    (hsplit : root.content.named "testcase" = before ++ testCase :: after) :
    ∃ front ts t us f, (read document).tokens.map Located.token =
      (front ++ .start root.tag :: ts) ++ t :: us ∧ (∀ u ∈ front, u.isLeaf = true) ∧
        Nests ts f ∧ f.named "testcase" = before ∧ t.tag? = some testCase.tag := by
  obtain ⟨front, row, rest, htokens, hfront, hrow, -⟩ := exists_root_tokens hcomplete hclosed htop
  obtain ⟨tag, content⟩ := root
  cases hrow with
  | empty =>
    have hlength := congrArg List.length hsplit
    simp [Forest.named, Forest.elements] at hlength
  | @element _ close inner us _ _ hcontent _ =>
    have hsplits := hcontent.splitsAt hsplit
    cases hsplits with
    | @intro ts ws f g hts hbefore hws _ =>
      obtain ⟨t, vs, rfl, ht, -⟩ := hws.exists_tag
      refine ⟨front, ts, t, vs ++ .close close :: us, f, ?_, hfront, hts, hbefore, ht⟩
      rw [htokens]
      simp

/-- A document with a plain root can be retitled, and has the same trees then but for the tag
of the root. -/
theorem exists_retitle_tree (title : List Char) (hcomplete : (read document).ending = .complete)
    (hclosed : openElements ((read document).tokens.map Located.token) = 0)
    (htop : topElements document = root :: later) (hname : root.tag.name = rootName)
    (hfault : root.tag.attributes.fault = none)
    (hplain : ∀ a ∈ root.tag.attributes.attributes, a.Plain) :
    ∃ out tag, retitle title document = .ok out ∧ (read out).ending = .complete ∧
      openElements ((read out).tokens.map Located.token) = 0 ∧
        topElements out = ⟨tag, root.content⟩ :: later ∧ RetitledTag title root.tag tag := by
  obtain ⟨front, back, rest, htokens, hfront, hback, rfl⟩ :=
    exists_root_tokens hcomplete hclosed htop
  obtain ⟨t, us, rfl, htag, hnests⟩ := hback.exists_tag
  let o : Outline := ⟨front, t, root.tag.attributes.attributes, us⟩
  have hsplits : o.Splits root.tag ((read document).tokens.map Located.token) :=
    ⟨htokens.symm, fun u hu => Builder.tag?_of_isLeaf (hfront u hu), htag, hname, by rw [← hfault]⟩
  have ho : Outline.ofDocument? document = some o := Outline.ofDocument?_eq_some_iff.mpr
    ⟨(read document).tokens, root.tag, by rw [← hcomplete], hclosed, hsplits⟩
  have hretitle := toOption_retitle title document
  rw [ho, Option.map_some, toOption_eq_some_iff] at hretitle
  obtain ⟨ts, hreread, hreclosed, hresplits⟩ := Outline.exists_reread ho hplain title
  refine ⟨_, o.titledTag title, hretitle, ?_⟩
  rw [topElements, hreread]
  refine ⟨rfl, hreclosed, ?_, hresplits.name, hsplits.attributes_titledTag hplain title⟩
  -- the leaves before the root may lose a byte order mark, and the root is another tag
  have hbefore : ∀ u ∈ (o.reread title).front, u.isLeaf = true := by
    apply isLeaf_dropMark
    intro u hu
    obtain ⟨leaf, hleaf, rfl⟩ := List.mem_map.mp hu
    have husual := hfront leaf hleaf
    cases leaf with
    | close => cases husual
    | _ => exact husual
  have hbehind := (hnests (o.titledTag title)).map_usual
  rw [List.map_cons, Token.usual_of_tag? (Token.tag?_withTag htag _)] at hbehind
  have hwhole := (nests_ofLeaves hbefore).append hbehind
  rw [← hresplits.tokens]
  have hforest : Forest.ofTokens ((o.reread title).tokensWith (o.reread title).root) = _ :=
    Forest.ofTokens_of_nests hwhole
  rw [hforest, Forest.elements_append, Forest.elements_ofLeaves]
  rfl

end

/-! ### Suites -/

/-- A `testsuite` whose test cases have the given names, in order, and in which all that is
looked at can be read. -/
structure LegibleSuite (names : List (List Char)) (root : Element) : Prop where
  name : root.tag.name = rootName
  fault : root.tag.attributes.fault = none
  plain : ∀ a ∈ root.tag.attributes.attributes, a.Plain
  attributes : ∀ key ∈ ["tests", "failures", "name"], (root.tag.value? key).isSome
  names : (testCasesIn root).map (fun testCase => testCase.tag.value? "name") =
    names.map fun name => some (some name)
  texts : ∀ testCase ∈ testCasesIn root, ∀ failure ∈ failuresIn testCase, LegibleFailure failure

/-- A document with one such suite. Nothing is said about the counts that it declares, about
which cases fail, and about what the failures say. -/
structure SuiteDocument (names : List (List Char)) (document : List Char) : Prop where
  complete : (read document).ending = .complete
  closed : openElements ((read document).tokens.map Located.token) = 0
  root : ∃ root, topElements document = [root] ∧ LegibleSuite names root

variable {names : List (List Char)} {document : List Char}

/-- A suite can be retitled and is one of the same test cases then. -/
theorem SuiteDocument.retitle (h : SuiteDocument names document) (title : List Char) :
    ∃ out, Reports.retitle title document = .ok out ∧ SuiteDocument names out := by
  obtain ⟨root, htop, hsuite⟩ := h.root
  obtain ⟨out, tag, hout, hcomplete, hclosed, hretop, htag⟩ := exists_retitle_tree title
    h.complete h.closed htop hsuite.name hsuite.fault hsuite.plain
  have hnodup := root.tag.nodup_attributes
  refine ⟨out, hout, hcomplete, hclosed, _, hretop, ?_⟩
  constructor
  case name => exact htag.name
  case fault => rw [htag.attributes]
  case plain => exact htag.plain hnodup hsuite.plain
  case attributes =>
    intro key hkey
    exact htag.isSome_value? hnodup hsuite.fault (hsuite.attributes key hkey)
  case names => exact hsuite.names
  case texts => exact hsuite.texts

/-! ### Reading a suite -/

/-- A reading gives the error of the first token that is refused, wherever it is. -/
theorem ofReading_eq_error {reading : Reading} {ts us : List Token} {t : Token} {b : Builder}
    {error : ReportError} (htokens : reading.tokens.map Located.token = ts ++ t :: us)
    (hfold : ts.foldlM Builder.next? .initial = some b)
    (hstep : ∀ position, b.step ⟨t, position⟩ = .error error) :
    Report.ofReading reading = .error error := by
  obtain ⟨before, behind, hbefore, rfl, hbehind⟩ := List.map_eq_append_iff.mp htokens
  obtain ⟨located, after, rfl, rfl, -⟩ := List.map_eq_cons_iff.mp hbehind
  rw [← Builder.toOption_foldlM_step, toOption_eq_some_iff] at hfold
  rw [Report.ofReading, hbefore, List.foldlM_append, hfold]
  change ((located :: after).foldlM Builder.step b >>= _) = _
  rw [List.foldlM_cons, hstep located.position]
  rfl

/-- A test case with another name than that of a test is refused. -/
theorem testCaseName_eq_error {tag : Tag} {value : List Char} {error : TestNameError}
    (hvalue : tag.value? "name" = some (some value)) (herror : TestName.parse value = .error error)
    (index position : Nat) :
    Builder.testCaseName tag index position = .error (.badTestCaseName index error) := by
  rw [← Builder.toOption_attributeValue tag "name" position, toOption_eq_some_iff] at hvalue
  rw [Builder.testCaseName, hvalue]
  change (TestName.parse value).mapError _ = _
  rw [herror]
  rfl

theorem step_testCase_eq_error {report : Report} {tag : Tag} {t : Token} {value : List Char}
    {error : TestNameError} (htag : t.tag? = some tag) (hname : tag.name = "testcase".toList)
    (hvalue : tag.value? "name" = some (some value)) (herror : TestName.parse value = .error error)
    (position : Nat) : Builder.step ⟨1, some report, none, false⟩ ⟨t, position⟩ =
      .error (.badTestCaseName report.testCases error) := by
  have hopen (isEmpty : Bool) :
      Builder.openElement ⟨2, some report, none, false⟩ tag isEmpty position =
        .error (.badTestCaseName report.testCases error) := by
    have hcase : Builder.openElement ⟨2, some report, none, false⟩ tag isEmpty position =
        Builder.testCaseName tag report.testCases position >>= fun name => pure
          ⟨2, some { report with testCases := report.testCases + 1 }, some ⟨name, none⟩, false⟩ :=
      if_pos hname
    rw [hcase, testCaseName_eq_error hvalue herror]
    rfl
  cases t with
  | start =>
    cases htag
    exact hopen false
  | empty =>
    cases htag
    unfold Builder.step
    dsimp only
    rw [hopen true]
    rfl
  | _ => cases htag

/-- The test cases whose names are given have one each of these names. -/
theorem exists_name_of_map_eq {testCases : List Element} {names : List (List Char)}
    (h : testCases.map (fun testCase => testCase.tag.value? "name") =
      names.map fun name => some (some name)) {testCase : Element}
    (htestCase : testCase ∈ testCases) : ∃ name ∈ names, testCase.tag.value? "name" = some (some name) := by
  have hvalue : testCase.tag.value? "name" ∈ names.map fun name => some (some name) := by
    rw [← h]
    exact List.mem_map_of_mem htestCase
  obtain ⟨name, hname, hvalue⟩ := List.mem_map.mp hvalue
  exact ⟨name, hname, hvalue.symm⟩

namespace LegibleSuite

variable {root : Element}

/-- With the names of tests there is nothing that could not be read. -/
theorem readable (h : LegibleSuite names root)
    (hnames : ∀ name ∈ names, ∃ test, TestName.parse name = .ok test) : Readable root := by
  refine ⟨h.attributes, ?_, h.texts⟩
  intro testCase htestCase
  obtain ⟨name, hname, hvalue⟩ := exists_name_of_map_eq h.names htestCase
  exact ⟨name, hvalue, (exists_parse_iff name).mp (hnames name hname)⟩

/-- The first test cases can be added to a report when they have the names of tests. -/
theorem exists_added (h : LegibleSuite names root) {front back : List Element}
    (hsplit : testCasesIn root = front ++ back) {frontNames : List (List Char)}
    (hvalues : front.map (fun testCase => testCase.tag.value? "name") =
      frontNames.map fun name => some (some name))
    (hnames : ∀ name ∈ frontNames, ∃ test, TestName.parse name = .ok test) (report : Report) :
    ∃ added, front.foldlM addTestCase? report = some added ∧
      added.testCases = report.testCases + frontNames.length := by
  obtain ⟨results, hresults⟩ := (exists_results_iff front).mpr <| by
    intro testCase htestCase
    obtain ⟨name, hname, hvalue⟩ := exists_name_of_map_eq hvalues htestCase
    exact (exists_caseName?_iff _).mpr
      ⟨name, hvalue, (exists_parse_iff name).mp (hnames name hname)⟩
  have hlegible : ∀ testCase ∈ front, ∀ failure ∈ failuresIn testCase, LegibleFailure failure :=
    fun testCase htestCase => h.texts testCase (hsplit ▸ List.mem_append_left back htestCase)
  have hlength : results.length = frontNames.length := by
    have hvalues := congrArg List.length hvalues
    have hresults := congrArg List.length hresults
    rw [List.length_map, List.length_map] at hvalues hresults
    omega
  refine ⟨_, foldlM_addTestCase?_eq_some_iff.mpr ⟨hlegible, results, hresults, rfl⟩, ?_⟩
  rw [foldl_add, hlength]

end LegibleSuite

theorem SuiteDocument.exists_parse (h : SuiteDocument names document)
    (hnames : ∀ name ∈ names, ∃ test, TestName.parse name = .ok test) :
    ∃ report, Report.parse document = .ok report := by
  obtain ⟨root, htop, hsuite⟩ := h.root
  obtain ⟨report, hreport⟩ := (exists_ofElements?_iff root).mpr (hsuite.readable hnames)
  refine ⟨report, parse_eq_ok_iff_ofElements?.mpr ⟨h.complete, h.closed, ?_⟩⟩
  rw [htop]
  exact hreport

/-- The first name that is not that of a test is reported, with the index of its test case. -/
theorem SuiteDocument.parse_eq_error {front back : List (List Char)} {bad : List Char}
    {error : TestNameError} (h : SuiteDocument (front ++ bad :: back) document)
    (hfront : ∀ name ∈ front, ∃ test, TestName.parse name = .ok test)
    (hbad : TestName.parse bad = .error error) :
    Report.parse document = .error (.badTestCaseName front.length error) := by
  obtain ⟨root, htop, hsuite⟩ := h.root
  have hvalues := hsuite.names
  rw [List.map_append, List.map_cons] at hvalues
  obtain ⟨before, behind, hsplit, hbefore, hbehind⟩ := List.map_eq_append_iff.mp hvalues
  obtain ⟨testCase, after, rfl, hvalue, -⟩ := List.map_eq_cons_iff.mp hbehind
  obtain ⟨leaves, ts, t, us, f, htokens, hleaves, hts, hf, ht⟩ :=
    exists_testCase_tokens h.complete h.closed htop hsplit
  obtain ⟨start, hstart, hempty⟩ : ∃ start,
      Builder.rootReport? root.tag = some start ∧ start.testCases = 0 := by
    obtain ⟨_, _, _, hstart⟩ := exists_rootReport? hsuite.attributes
    exact ⟨_, hstart, rfl⟩
  obtain ⟨added, hadded, hcount⟩ := hsuite.exists_added hsplit hbefore hfront start
  have hfold : (leaves ++ .start root.tag :: ts).foldlM Builder.next? .initial =
      some ⟨1, some added, none, false⟩ := by
    have hinner := Builder.foldlM_next?_testCases hts start
    rw [hf, hadded] at hinner
    rw [List.foldlM_append, Builder.foldlM_next?_of_tagless rfl
      fun u hu => Builder.tag?_of_isLeaf (hleaves u hu)]
    change (Token.start root.tag :: ts).foldlM Builder.next? .initial = _
    rw [List.foldlM_cons, Builder.next?_root rfl, hstart]
    exact hinner
  have hname : testCase.tag.name = "testcase".toList := by
    have hmem : testCase ∈ testCasesIn root := by
      rw [hsplit]
      simp
    exact eq_of_beq (List.mem_filter.mp hmem).2
  rw [hempty, Nat.zero_add] at hcount
  rw [← hcount]
  exact ofReading_eq_error htokens hfold (step_testCase_eq_error ht hname hvalue hbad)

/-- Documents of the same test cases give a report alike, or are refused with the same error. -/
theorem SuiteDocument.sameVerdict {document' : List Char} (h : SuiteDocument names document)
    (h' : SuiteDocument names document') :
    (∃ report report', Report.parse document = .ok report ∧ Report.parse document' = .ok report') ∨
      ∃ error, Report.parse document = .error error ∧ Report.parse document' = .error error := by
  rcases forall_ok_or_first_error TestName.parse names with
    hall | ⟨front, bad, back, error, rfl, hfront, hbad⟩
  · obtain ⟨report, hreport⟩ := h.exists_parse hall
    obtain ⟨report', hreport'⟩ := h'.exists_parse hall
    exact .inl ⟨report, report', hreport, hreport'⟩
  · exact .inr ⟨_, h.parse_eq_error hfront hbad, h'.parse_eq_error hfront hbad⟩

end Reports
end FirmwareTests
