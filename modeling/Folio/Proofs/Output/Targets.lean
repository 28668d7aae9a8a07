import Folio.Output.Preview
import Folio.Proofs.FileTree.Writing
import Folio.Proofs.Path.Names

/-!
# Where output goes

The targets of pages and previews are computed from the texts of paths.  For the names
of a listed file they come out as follows.

* A page keeps its names but for the last, which gets another ending.
* A preview lies in a directory named after the component, which is the component's
  file without its ending.  That name can turn out to be `..`, and then the path to the
  preview goes up once.
-/

namespace Folio

open Text FileTree

/-! ## Endings of names -/

theorem dropSuffix_append {suffix : String} {lead last : List Char}
    (hlength : suffix.toList.length ≤ last.length) :
    dropSuffix suffix (lead ++ last) = lead ++ dropSuffix suffix last := by
  rw [String.length_toList] at hlength
  unfold dropSuffix
  have hcut : (lead ++ last).length - suffix.length =
      lead.length + (last.length - suffix.length) := by
    rw [List.length_append]
    omega
  rw [hcut, List.take_length_add_append]

/-- A text of names loses the ending of the last one. -/
theorem dropSuffix_intercalate {suffix : String} {names : List String} {last : String}
    (hknown : suffix ∈ pageSuffixes) (hsuffix : hasSuffix suffix last.toList) :
    dropSuffix suffix ("/".intercalate (names ++ [last])).toList =
      joinWith ['/'] (names.map String.toList ++ [dropSuffix suffix last.toList]) := by
  have hdotless : ∀ suffix ∈ pageSuffixes,
      suffix.toList.all fun d => d ≠ 'i' && d ≠ Char.ofNat 775 := by decide
  have hlength := length_le_of_hasSuffix (hdotless suffix hknown) hsuffix
  rw [toList_intercalate_slash, List.map_append, List.map_singleton, joinWith_concat,
    dropSuffix_append hlength, ← joinWith_concat]

theorem dropSuffix_subset (suffix : String) (s : List Char) : dropSuffix suffix s ⊆ s :=
  List.take_subset _ _

/-- With an ending, a name is neither empty nor dots alone. -/
theorem isFileName_append_suffix {name suffix : String} (hslash : '/' ∉ name.toList)
    (husable : Path.isUsable name) (hsuffix : suffix ∈ pageSuffixes) :
    IsFileName (name ++ suffix) := by
  have hending : suffix.toList.length = 5 ∧ '/' ∉ suffix.toList ∧ '\x00' ∉ suffix.toList := by
    revert suffix
    decide
  obtain ⟨hfive, hslash', hnull⟩ := hending
  have hlength : (name ++ suffix).toList.length = name.toList.length + 5 := by
    rw [String.toList_append, List.length_append, hfive]
  have hlong : ∀ other : String, other.toList.length < 5 → name ++ suffix ≠ other := by
    intro other hother h
    rw [h] at hlength
    omega
  refine ⟨hlong _ (by decide), hlong _ (by decide), hlong _ (by decide), ?_, ?_⟩
  · rw [String.toList_append, List.mem_append]
    exact fun h => h.elim hslash hslash'
  · unfold Path.isUsable at husable ⊢
    simp only [Bool.not_eq_true', List.contains_eq_mem, decide_eq_false_iff_not] at husable ⊢
    rw [String.toList_append, List.mem_append]
    exact fun h => h.elim husable hnull

theorem isFileName_append_outputSuffix {name : String} (hslash : '/' ∉ name.toList)
    (husable : Path.isUsable name) : IsFileName (name ++ outputSuffix) :=
  isFileName_append_suffix hslash husable (by decide)

/-! ## Pages -/

theorem isFileName_renderedName {name : String} (hname : IsFileName name) :
    IsFileName (renderedName name) := by
  obtain ⟨-, -, -, hslash, husable⟩ := hname
  refine isFileName_append_outputSuffix ?_ ?_
  · rw [String.toList_ofList]
    exact fun h => hslash (dropSuffix_subset _ _ h)
  · unfold Path.isUsable at husable ⊢
    simp only [Bool.not_eq_true', List.contains_eq_mem, decide_eq_false_iff_not,
      String.toList_ofList] at husable ⊢
    exact fun h => husable (dropSuffix_subset _ _ h)

/-- The last name of a page gets another ending. -/
theorem renderedName_intercalate {names : List String} {last : String}
    (hsuffix : hasSuffix templateSuffix last.toList) :
    renderedName ("/".intercalate (names ++ [last])) =
      "/".intercalate (names ++ [renderedName last]) := by
  rw [← String.toList_inj, toList_intercalate_slash]
  unfold renderedName
  rw [String.toList_append, String.toList_ofList, dropSuffix_intercalate (by decide) hsuffix,
    List.map_append, List.map_singleton, String.toList_append, String.toList_ofList,
    joinWith_concat, joinWith_concat, List.append_assoc]

/-- A text of names is the last of them, or ends in a slash and that. -/
theorem intercalate_eq_or (names : List String) (last : String) :
    ("/".intercalate (names ++ [last])).toList = last.toList ∨
      ∃ front, ("/".intercalate (names ++ [last])).toList = front ++ '/' :: last.toList := by
  rw [toList_intercalate_slash, List.map_append, List.map_singleton, joinWith_concat]
  rcases List.eq_nil_or_concat names with rfl | ⟨init, name, rfl⟩
  · exact .inl rfl
  · have hfront : ((init.concat name).map String.toList).flatMap (· ++ ['/']) =
        ((init.map String.toList).flatMap (· ++ ['/']) ++ name.toList) ++ ['/'] := by simp
    rw [hfront, List.append_assoc, List.singleton_append]
    exact .inr ⟨_, rfl⟩

theorem hasSuffix_intercalate {suffix : String} (names : List String) {last : String}
    (hsuffix : hasSuffix suffix last.toList) :
    hasSuffix suffix ("/".intercalate (names ++ [last])).toList := by
  rcases intercalate_eq_or names last with h | ⟨front, h⟩
  · rwa [h]
  · rw [h]
    exact hasSuffix_append_slash front hsuffix

/-- A text of names has no ending that the last of them does not have. -/
theorem hasSuffix_of_intercalate {suffix : String} {names : List String} {last : String}
    (hslash : '/' ∉ suffix.toList)
    (hsuffix : hasSuffix suffix ("/".intercalate (names ++ [last])).toList) :
    hasSuffix suffix last.toList := by
  rcases intercalate_eq_or names last with h | ⟨front, h⟩
  · rwa [h] at hsuffix
  · rw [h] at hsuffix
    exact hasSuffix_of_append_slash hslash hsuffix

/-- Where a template among the pages goes. -/
theorem joinText_renderedName {pages : Path} {names : List String} {last : String} (out : Path)
    (hnames : ∀ name ∈ names ++ [last], IsFileName name)
    (hsuffix : hasSuffix templateSuffix last.toList) :
    out / renderedName (Path.textBelow ⟨pages.anchor, pages.parts ++ (names ++ [last])⟩ pages) =
      ⟨out.anchor, out.parts ++ (names ++ [renderedName last])⟩ := by
  have hall : ∀ name ∈ names ++ [renderedName last], IsFileName name := fun name hname =>
    (List.mem_append.1 hname).elim (fun h => hnames name (List.mem_append_left _ h)) fun h =>
      List.mem_singleton.1 h ▸ isFileName_renderedName (hnames last (by simp))
  rw [Path.textBelow_append (by simp), renderedName_intercalate hsuffix,
    Path.joinText_intercalate hall]

/-- Where a page goes that is only copied. -/
theorem joinText_textBelow {pages : Path} {names : List String} (out : Path)
    (hne : names ≠ []) (hnames : ∀ name ∈ names, IsFileName name) :
    out / Path.textBelow ⟨pages.anchor, pages.parts ++ names⟩ pages =
      ⟨out.anchor, out.parts ++ names⟩ := by
  rw [Path.textBelow_append hne, Path.joinText_intercalate hnames]

/-- The key of a file among the pages is computed from the names that lead to it. -/
theorem pageKey_below {l : Layout} {names : List String} (hne : names ≠ []) :
    l.pageKey? ⟨l.pages.anchor, l.pages.parts ++ names⟩ =
      some ("pages/" ++ String.ofList (withOutputSuffix ("/".intercalate names).toList)) := by
  have hstarts : l.pages.parts.isPrefixOf (l.pages.parts ++ names) := by simp
  have htext : Path.toString ⟨.relative, names⟩ = "/".intercalate names := by
    simp [Path.toString, Path.anchorText, hne]
  unfold Layout.pageKey? Path.relativeTo?
  simp only [hstarts, decide_true, Bool.and_self, if_true, Option.map_some, List.drop_left]
  rw [htext]

theorem withOutputSuffix_of_template {text : List Char} (hsuffix : hasSuffix templateSuffix text) :
    withOutputSuffix text = dropSuffix templateSuffix text ++ outputSuffix.toList := by
  unfold withOutputSuffix pageSuffixes
  rw [List.find?_cons, hsuffix]

theorem withOutputSuffix_of_output {text : List Char} (hnot : hasSuffix templateSuffix text = false)
    (hsuffix : hasSuffix outputSuffix text) :
    withOutputSuffix text = dropSuffix outputSuffix text ++ outputSuffix.toList := by
  unfold withOutputSuffix pageSuffixes
  rw [List.find?_cons, hnot, List.find?_cons, hsuffix]

theorem withOutputSuffix_of_other {text : List Char}
    (hnot : ∀ suffix ∈ pageSuffixes, hasSuffix suffix text = false) :
    withOutputSuffix text = text := by
  have hnone : pageSuffixes.find? (fun suffix => hasSuffix suffix text) = none :=
    List.find?_eq_none.2 fun suffix hsuffix => by simp [hnot suffix hsuffix]
  unfold withOutputSuffix
  rw [hnone]

/-- A text of names keeps them but for the last, which may get another ending. -/
theorem withOutputSuffix_intercalate {names : List String} {last : String}
    (hlast : IsFileName last) : ∃ last', IsFileName last' ∧
      withOutputSuffix ("/".intercalate (names ++ [last])).toList =
        ("/".intercalate (names ++ [last'])).toList := by
  unfold withOutputSuffix
  cases hfound : pageSuffixes.find? fun suffix =>
      hasSuffix suffix ("/".intercalate (names ++ [last])).toList with
  | none => exact ⟨last, hlast, rfl⟩
  | some suffix =>
      have hknown := List.mem_of_find?_eq_some hfound
      have hslash : ∀ suffix ∈ pageSuffixes, '/' ∉ suffix.toList := by decide
      have hends : hasSuffix suffix ("/".intercalate (names ++ [last])).toList = true := by
        simpa using List.find?_some hfound
      have hsuffix : hasSuffix suffix last.toList :=
        hasSuffix_of_intercalate (hslash suffix hknown) hends
      obtain ⟨-, -, -, hslash', husable⟩ := hlast
      have hsubset := dropSuffix_subset suffix last.toList
      refine ⟨String.ofList (dropSuffix suffix last.toList) ++ outputSuffix,
        isFileName_append_outputSuffix ?_ ?_, ?_⟩
      · rw [String.toList_ofList]
        exact fun h => hslash' (hsubset h)
      · unfold Path.isUsable at husable ⊢
        simp only [Bool.not_eq_true', List.contains_eq_mem, decide_eq_false_iff_not] at husable ⊢
        rw [String.toList_ofList]
        exact fun h => husable (hsubset h)
      · dsimp only
        rw [dropSuffix_intercalate hknown hsuffix, toList_intercalate_slash, List.map_append,
          List.map_singleton, String.toList_append, String.toList_ofList, joinWith_concat,
          joinWith_concat, List.append_assoc]

/-- The manifest knows a rendered page by its output. -/
theorem pageKey_eq {l : Layout} {names : List String} {last : String}
    (hsuffix : hasSuffix templateSuffix last.toList) :
    l.pageKey? ⟨l.pages.anchor, l.pages.parts ++ (names ++ [last])⟩ =
      some ("pages/" ++ renderedName
        (Path.textBelow ⟨l.pages.anchor, l.pages.parts ++ (names ++ [last])⟩ l.pages)) := by
  rw [Path.textBelow_append (by simp), pageKey_below (by simp),
    withOutputSuffix_of_template (hasSuffix_intercalate names hsuffix), String.ofList_append,
    String.ofList_toList]
  rfl

/-! ## Previews -/

/-- The names of the directory for the previews of a component, below those that its
file shares with others: its name without the ending, unless nothing is left of it. -/
def stemNames (name : String) : List String :=
  ([dropSuffix templateSuffix name.toList].filter fun s => !s.isEmpty && s ≠ ['.']).map
    String.ofList

/-- A name of a component's file that leaves `..` without its ending. -/
def IsUpName (name : String) : Prop :=
  hasSuffix templateSuffix name.toList ∧ dropSuffix templateSuffix name.toList = ['.', '.']

theorem stemNames_of_isUpName {name : String} (hname : IsUpName name) :
    stemNames name = [".."] := by
  unfold stemNames
  rw [hname.2]
  decide

theorem isFileName_of_mem_stemNames {name stem : String} (hname : IsFileName name)
    (hsuffix : hasSuffix templateSuffix name.toList) (hup : ¬ IsUpName name)
    (hstem : stem ∈ stemNames name) : IsFileName stem := by
  obtain ⟨-, -, -, hslash, husable⟩ := hname
  obtain ⟨s, hs, rfl⟩ := List.mem_map.1 hstem
  obtain ⟨hmem, hkept⟩ := List.mem_filter.1 hs
  obtain rfl := List.mem_singleton.1 hmem
  simp only [Bool.and_eq_true, Bool.not_eq_true', List.isEmpty_eq_false_iff,
    decide_eq_true_eq] at hkept
  have hchars : (String.ofList (dropSuffix templateSuffix name.toList)).toList =
      dropSuffix templateSuffix name.toList := String.toList_ofList
  refine ⟨fun h => ?_, fun h => ?_, fun h => ?_, ?_, ?_⟩
  · exact hkept.1 (by rw [← hchars, h]; rfl)
  · exact hkept.2 (by rw [← hchars, h]; rfl)
  · exact hup ⟨hsuffix, by rw [← hchars, h]; rfl⟩
  · rw [hchars]
    exact fun h => hslash (dropSuffix_subset _ _ h)
  · unfold Path.isUsable at husable ⊢
    simp only [Bool.not_eq_true', List.contains_eq_mem, decide_eq_false_iff_not] at husable ⊢
    rw [hchars]
    exact fun h => husable (dropSuffix_subset _ _ h)

/-- The names of a component without the ending of its file. -/
theorem ofString_id {names : List String} {last routine : String} {file : Path}
    (hnames : ∀ name ∈ names ++ [last], IsFileName name)
    (hsuffix : hasSuffix templateSuffix last.toList) :
    Path.ofString (ShownComponent.id ⟨file, "/".intercalate (names ++ [last]), routine⟩) =
      ⟨.relative, names ++ stemNames last⟩ := by
  have hlast : '/' ∉ dropSuffix templateSuffix last.toList := fun h =>
    (hnames last (by simp)).2.2.2.1 (dropSuffix_subset _ _ h)
  unfold Path.ofString ShownComponent.id
  rw [String.toList_ofList, dropSuffix_intercalate (by decide) hsuffix,
    Path.ofChars_joinWith (fun name hname => hnames name (by simp [hname])) hlast]
  rfl

/-! ## States -/

/-- Reading the name of a state's file gives one name. -/
theorem joinText_state {directory : Path} {state : String} (hstate : isStateName state) :
    directory / (state ++ outputSuffix) =
      ⟨directory.anchor, directory.parts ++ [state ++ outputSuffix]⟩ := by
  simp only [isStateName, Bool.and_eq_true, Bool.not_eq_true', List.contains_eq_mem,
    decide_eq_false_iff_not, decide_eq_true_eq] at hstate
  have hslash : '/' ∉ (state ++ outputSuffix).toList := by
    rw [String.toList_append, List.mem_append]
    exact fun h => h.elim hstate.1.2 (by decide)
  have hlong : ∀ s : List Char, s.length < 5 → (state ++ outputSuffix).toList ≠ s := by
    intro s hs h
    have hlength : (state ++ outputSuffix).toList.length = state.toList.length + 5 := by
      rw [String.toList_append, List.length_append]
      rfl
    rw [h] at hlength
    omega
  have hread : Path.ofString (state ++ outputSuffix) = ⟨.relative, [state ++ outputSuffix]⟩ := by
    have hnone : ∀ name ∈ ([] : List String), IsFileName name := by simp
    have hchars := Path.ofChars_joinWith hnone hslash
    have hkept : [(state ++ outputSuffix).toList].filter
        (fun piece => !piece.isEmpty && piece ≠ ['.']) = [(state ++ outputSuffix).toList] := by
      refine List.filter_eq_self.2 fun piece hpiece => ?_
      obtain rfl := List.mem_singleton.1 hpiece
      simp only [Bool.and_eq_true, Bool.not_eq_true', List.isEmpty_eq_false_iff,
        decide_eq_true_eq]
      exact ⟨hlong [] (by decide), hlong ['.'] (by decide)⟩
    rw [joinWith_concat, hkept, List.map_singleton, String.ofList_toList] at hchars
    exact hchars
  rw [Path.div_text, hread]
  rfl

theorem isFileName_state {state : String} (hstate : isStateName state)
    (husable : Path.isUsable (state ++ outputSuffix)) : IsFileName (state ++ outputSuffix) := by
  simp only [isStateName, Bool.and_eq_true, Bool.not_eq_true', List.contains_eq_mem,
    decide_eq_false_iff_not] at hstate
  refine isFileName_append_outputSuffix hstate.1.2 ?_
  unfold Path.isUsable at husable ⊢
  simp only [Bool.not_eq_true', List.contains_eq_mem, decide_eq_false_iff_not] at husable ⊢
  rw [String.toList_append, List.mem_append] at husable
  exact fun h => husable (Or.inl h)

/-- A name with the ending of pages is not one without it. -/
theorem append_outputSuffix_ne_of {name : String} (hname : ¬ outputSuffix.toList <:+ name.toList)
    (state : String) : state ++ outputSuffix ≠ name := by
  rintro rfl
  rw [String.toList_append] at hname
  exact hname (List.suffix_append ..)

theorem append_outputSuffix_ne (state : String) : state ++ outputSuffix ≠ ".." :=
  append_outputSuffix_ne_of (by decide) state

/-- A component's file, by its names among the components. -/
structure IsComponent (c : ShownComponent) (names : List String) (last : String) : Prop where
  isFileName : ∀ name ∈ names ++ [last], IsFileName name
  hasSuffix : hasSuffix templateSuffix last.toList
  rel_eq : c.rel = "/".intercalate (names ++ [last])

namespace IsComponent

variable {base : Path} {c : ShownComponent} {names : List String} {last state : String}

theorem names_isFileName (hc : IsComponent c names last) : ∀ name ∈ names, IsFileName name :=
  fun name hname => hc.isFileName name (List.mem_append_left _ hname)

theorem stem_isFileName (hc : IsComponent c names last) (hup : ¬ IsUpName last) :
    ∀ name ∈ names ++ stemNames last, IsFileName name := fun name hname =>
  (List.mem_append.1 hname).elim (hc.names_isFileName name) fun h =>
    isFileName_of_mem_stemNames (hc.isFileName last (by simp)) hc.hasSuffix hup h

theorem id_eq (hc : IsComponent c names last) :
    Path.ofString c.id = ⟨.relative, names ++ stemNames last⟩ := by
  obtain ⟨file, rel, routine⟩ := c
  obtain rfl := hc.rel_eq
  exact ofString_id hc.isFileName hc.hasSuffix

/-- The directory for the previews. -/
theorem directory_eq (hc : IsComponent c names last) (base : Path) :
    base / c.id = ⟨base.anchor, base.parts ++ (names ++ stemNames last)⟩ := by
  rw [Path.div_text, hc.id_eq]
  rfl

theorem preview_eq (hc : IsComponent c names last) (hstate : isStateName state) (base : Path) :
    base / c.id / (state ++ outputSuffix) =
      ⟨base.anchor, base.parts ++ (names ++ stemNames last ++ [state ++ outputSuffix])⟩ := by
  rw [joinText_state hstate, hc.directory_eq, List.append_assoc]

theorem leadsDown (hc : IsComponent c names last) (hbase : base.IsPlain) :
    ∃ below, (∀ name ∈ below, IsFileName name) ∧
      LeadsDown (base / c.id) (base.parts ++ below) := by
  by_cases hup : IsUpName last
  · refine ⟨names, hc.names_isFileName, (hbase.below hc.names_isFileName).isCanonical.not_mem,
      Or.inr ?_⟩
    rw [hc.directory_eq, stemNames_of_isUpName hup, List.append_assoc]
  · refine ⟨names ++ stemNames last, hc.stem_isFileName hup,
      (hbase.below (hc.stem_isFileName hup)).isCanonical.not_mem, Or.inl ?_⟩
    rw [hc.directory_eq]

/-- The names that lead to a preview from the directory for previews, or from the one
above it, once a `..` has taken away the name before it. -/
theorem place_of_isUpName (hc : IsComponent c names last) (hbase : base.IsPlain)
    (hstate : isStateName state) (hup : IsUpName last) :
    Path.normalParts [] (base / c.id / (state ++ outputSuffix)).parts =
      (base.parts ++ names).dropLast ++ [state ++ outputSuffix] := by
  have hdown := (hbase.below hc.names_isFileName).isCanonical.not_mem
  have hsplit : base.parts ++ (names ++ [".."] ++ [state ++ outputSuffix]) =
      (base.parts ++ names) ++ (".." :: [state ++ outputSuffix]) := by simp
  rw [hc.preview_eq hstate, stemNames_of_isUpName hup, hsplit, Path.normalParts,
    List.foldl_append]
  have hfold := Path.normalParts_of_not_mem hdown []
  unfold Path.normalParts at hfold
  rw [hfold, List.nil_append, List.foldl_cons, if_pos rfl, List.foldl_cons,
    if_neg (append_outputSuffix_ne state), List.foldl_nil]

theorem place_of_not_isUpName (hc : IsComponent c names last) (hbase : base.IsPlain)
    (hstate : isStateName state) (hup : ¬ IsUpName last) :
    Path.normalParts [] (base / c.id / (state ++ outputSuffix)).parts =
      base.parts ++ (names ++ stemNames last ++ [state ++ outputSuffix]) := by
  have hdown := (hbase.below (hc.stem_isFileName hup)).isCanonical.not_mem
  have hnone : ".." ∉ base.parts ++ (names ++ stemNames last ++ [state ++ outputSuffix]) := by
    rw [← List.append_assoc]
    exact fun h => (List.mem_append.1 h).elim hdown fun h =>
      append_outputSuffix_ne state (List.mem_singleton.1 h).symm
  rw [hc.preview_eq hstate, Path.normalParts_of_not_mem hnone, List.nil_append]

/-- A preview is written to the place that its path comes to. -/
theorem leadsTo (hc : IsComponent c names last) (hbase : base.IsPlain)
    (hstate : isStateName state) :
    ∃ below, (∀ name ∈ below, IsFileName name) ∧
      LeadsTo (base / c.id / (state ++ outputSuffix)) (base.parts ++ below)
        (Path.normalParts [] (base / c.id / (state ++ outputSuffix)).parts) := by
  have hname := append_outputSuffix_ne state
  by_cases hup : IsUpName last
  · have hdown := (hbase.below hc.names_isFileName).isCanonical.not_mem
    refine ⟨names, hc.names_isFileName, ?_⟩
    rw [hc.place_of_isUpName hbase hstate hup]
    refine LeadsTo.of_up hdown hname ?_
    rw [hc.preview_eq hstate, stemNames_of_isUpName hup]
    simp
  · have hdown := (hbase.below (hc.stem_isFileName hup)).isCanonical.not_mem
    refine ⟨names ++ stemNames last, hc.stem_isFileName hup, ?_⟩
    rw [hc.place_of_not_isUpName hbase hstate hup, hc.preview_eq hstate, ← List.append_assoc]
    have hnone : ".." ∉ base.parts ++ (names ++ stemNames last) ++ [state ++ outputSuffix] :=
      fun h => (List.mem_append.1 h).elim hdown fun h => hname (List.mem_singleton.1 h).symm
    have hleads : LeadsTo ⟨base.anchor, _⟩ _ _ := LeadsTo.of_not_mem hnone
    rwa [List.dropLast_concat] at hleads

end IsComponent

end Folio
