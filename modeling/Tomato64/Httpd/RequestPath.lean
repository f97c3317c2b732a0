import Tomato64.Core.Path
import Tomato64.Core.Search
import Tomato64.Httpd.RequestHeaders

/-!
# The path of a request

`handle_request` refuses a path that could leave the document root.  It cuts
the query off first, but the length that its test of the last three bytes uses
was taken before that.  So the test sees what `webcgi_init` has made of the end
of the query.
-/

namespace Tomato64.RequestPath

open List Tomato64.Path RequestHeaders Search Split
open Text

variable (text : Bytes)

def letThrough : Option Bytes :=
  match parseRequestLine text with
  | .ok (request, _) => some request.file
  | .error _ => none

/-- The target of a request line whose method is served and whose target is
absolute, before any test of the path. -/
def requestTarget : Option Bytes :=
  match strsepSpace text with
  | (_, none) => none
  | (method, some behindMethod) =>
    match strsepSpace (skipSpaces behindMethod) with
    | (_, none) => none
    | (path, some _) =>
      if !equalNoCase method (bytes "get") &&
          !equalNoCase method (bytes "post") then none
      else if path.head? ≠ some slash then none
      else some path

/-- The tests of a target and the page that replaces it. -/
def checkTarget (path : Bytes) : Option Bytes :=
  let cut := cutQuery (path.drop 1)
  if leavesRoot (testedPath cut) cut.1 then none
  else some (resolveFile (testedPath cut) cut.1)

theorem letThrough_eq_bind :
    letThrough text = (requestTarget text).bind checkTarget := by
  rw [letThrough, parseRequestLine, requestTarget]
  cases strsepSpace text with
  | mk method behindMethod =>
    cases behindMethod with
    | none => rfl
    | some behindMethod =>
      cases hpath : strsepSpace (skipSpaces behindMethod) with
      | mk path behindPath =>
        cases behindPath with
        | none => simp only [hpath, Option.bind_none]
        | some behindPath =>
          simp only [hpath]
          by_cases hmethod : (!equalNoCase method (bytes "get") &&
              !equalNoCase method (bytes "post")) = true
          · rw [if_pos hmethod, if_pos hmethod]
            rfl
          rw [if_neg hmethod, if_neg hmethod]
          by_cases hhead : path.head? ≠ some slash
          · rw [if_pos hhead, if_pos (show path.head? ≠ some 47 from hhead)]
            rfl
          rw [if_neg hhead, if_neg (show ¬ path.head? ≠ some 47 from hhead),
            Option.bind_some, checkTarget]
          cases leavesRoot (testedPath (cutQuery (path.drop 1)))
              (cutQuery (path.drop 1)).1 with
          | true => rfl
          | false => rfl

/-! ## Components -/

/-- A relative path without a component that leads upwards. -/
def Inside (file : Bytes) : Prop :=
  file.head? ≠ some slash ∧ bytes ".." ∉ file.splitOn slash

instance (file : Bytes) : Decidable (Inside file) :=
  inferInstanceAs (Decidable (_ ∧ _))

/-- A component stands at one of the ends of the path or between slashes. -/
theorem mem_splitOn_cases {part file : Bytes}
    (hpart : part ∈ file.splitOn slash) :
    part <+: file ∨ slash :: part ++ [slash] <:+: file ∨
      slash :: part <:+ file := by
  obtain ⟨front, back, hsplit⟩ := append_of_mem hpart
  have htext : [slash].intercalate (file.splitOn slash) = file :=
    intercalate_splitOn slash
  rw [hsplit] at htext
  cases front with
  | nil =>
    refine .inl ?_
    rw [← htext, nil_append, intercalate_cons]
    exact prefix_append ..
  | cons first front =>
    rw [cons_append, intercalate_cons, flatMap_append, flatMap_cons] at htext
    cases back with
    | nil =>
      refine .inr (.inr ⟨first ++ front.flatMap (slash :: ·), ?_⟩)
      rw [← htext, flatMap_nil, append_nil, append_assoc]
    | cons next back =>
      refine .inr (.inl ⟨first ++ front.flatMap (slash :: ·),
        next ++ back.flatMap (slash :: ·), ?_⟩)
      rw [← htext, flatMap_cons]
      simp only [append_assoc, cons_append, nil_append]

/-- The tests on the part before the query. -/
structure PassesFront (file : Bytes) : Prop where
  relative : file.head? ≠ some slash
  start : ¬ bytes ".." <+: file
  middle : ¬ bytes "/../" <:+: file

theorem leavesRoot_eq_false_iff (whole file : Bytes) :
    leavesRoot whole file = false ↔
      PassesFront file ∧ ¬ bytes "/.." <:+ whole := by
  have hsuffix : whole.drop (whole.length - 3) = bytes "/.." ↔
      bytes "/.." <:+ whole := by
    rw [suffix_iff_eq_drop, eq_comm]
    rfl
  rw [leavesRoot, Bool.or_eq_false_iff, Bool.or_eq_false_iff,
    Bool.or_eq_false_iff, decide_eq_false_iff_not, decide_eq_false_iff_not,
    hsuffix, ← Bool.not_eq_true, ← Bool.not_eq_true,
    isPrefixOf_iff_prefix, splitAtKey_isSome_iff (by decide)]
  constructor
  · rintro ⟨⟨⟨hrelative, hstart⟩, hmiddle⟩, hend⟩
    exact ⟨⟨hrelative, hstart, hmiddle⟩, hend⟩
  · rintro ⟨⟨hrelative, hstart, hmiddle⟩, hend⟩
    exact ⟨⟨⟨hrelative, hstart⟩, hmiddle⟩, hend⟩

/-- Only the end of the path is left to be tested. -/
theorem PassesFront.inside_iff {file : Bytes} (hfront : PassesFront file) :
    Inside file ↔ ¬ bytes "/.." <:+ file := by
  constructor
  · rintro ⟨-, hinside⟩ ⟨front, rfl⟩
    apply hinside
    change bytes ".." ∈ (front ++ slash :: bytes "..").splitOn slash
    rw [splitOn_append_cons_self]
    exact mem_append_right _ (by decide)
  · intro hend
    refine ⟨hfront.relative, fun hmem => ?_⟩
    rcases mem_splitOn_cases hmem with hstart | hmiddle | hsuffix
    · exact hfront.start hstart
    · exact hfront.middle hmiddle
    · exact hend hsuffix

/-- A page that replaces the path is inside. -/
theorem inside_resolveFile_iff (whole file : Bytes) :
    Inside (resolveFile whole file) ↔
      whole.getLast? = some slash ∨ Inside file := by
  rw [resolveFile]
  split
  · next hspecial =>
    have hoverview : Inside (bytes "status-overview.asp") := by decide
    rcases hspecial with rfl | hlast | rfl
    · exact ⟨fun _ => .inr (by decide), fun _ => hoverview⟩
    · exact ⟨fun _ => .inl hlast, fun _ => hoverview⟩
    · exact ⟨fun _ => .inr (by decide), fun _ => hoverview⟩
  · next hplain =>
    have hlast : whole.getLast? ≠ some slash :=
      fun hslash => hplain (.inr (.inl hslash))
    split
    · next hext =>
      have hindex : Inside (bytes "ext/index.asp") := by decide
      rcases hext with rfl | rfl
      · exact ⟨fun _ => .inr (by decide), fun _ => hindex⟩
      · exact ⟨fun _ => .inr (by decide), fun _ => hindex⟩
    · exact ⟨.inr, fun hinside => hinside.resolve_left hlast⟩

/-! ## Containment -/

/-- A path that is let through does not leave the document root. -/
def Contained : Prop :=
  ∀ file, letThrough text = some file → Inside file

/-- A target whose part before the query ends in a component that leads
upwards.  The last bytes of the query, as `webcgi_init` leaves it, are neither a
slash, which would select the overview page, nor the component that the test
looks for. -/
structure HidesParent (file query : Bytes) : Prop where
  first : (63 : Byte) ∉ file
  front : PassesFront file
  parent : bytes "/.." <:+ file
  notRefused : ¬ bytes "/.." <:+ Cgi.webcgiOverwrite query
  notReplaced : (Cgi.webcgiOverwrite query).getLast? ≠ some slash

theorem suffix_tested_iff (file query : Bytes) :
    bytes "/.." <:+ slash :: (file ++ 0 :: query) ↔ bytes "/.." <:+ query := by
  have hquery : 0 :: query <:+ slash :: (file ++ 0 :: query) :=
    ⟨slash :: file, rfl⟩
  constructor
  · intro hsuffix
    rcases suffix_or_suffix_of_suffix hsuffix hquery with hshort | hlong
    · rcases suffix_cons_iff.mp hshort with heq | hshort
      · exact absurd (congrArg List.head? heq) (by simp [bytes, ascii])
      · exact hshort
    · have hmem : (0 : Byte) ∈ bytes "/.." := hlong.subset mem_cons_self
      exact absurd hmem (by decide)
  · intro hsuffix
    exact (hsuffix.trans (suffix_cons 0 query)).trans hquery

theorem getLast?_tested_iff (file query : Bytes) :
    (slash :: (file ++ 0 :: query)).getLast? = some slash ↔
      query.getLast? = some slash := by
  rw [← cons_append, getLast?_append_of_ne_nil _ (by simp), getLast?_cons]
  cases query with
  | nil => decide
  | cons char query => simp [getLast?_cons]

/-- A target without a query is tested as a whole. -/
theorem inside_of_no_query {rest file : Bytes} (hrest : (63 : Byte) ∉ rest)
    (hcheck : checkTarget (slash :: rest) = some file) : Inside file := by
  have hcut : cutQuery rest = (rest, none) := by
    rw [cutQuery, splitFirst_eq_none_iff.mpr hrest]
  rw [checkTarget, drop_one, tail_cons, hcut] at hcheck
  cases hleaves : leavesRoot (testedPath (rest, none)) rest with
  | true => simp [hleaves] at hcheck
  | false =>
    obtain ⟨hfront, hend⟩ := (leavesRoot_eq_false_iff _ rest).mp hleaves
    simp only [hleaves, Bool.false_eq_true, if_false,
      Option.some.injEq] at hcheck
    rw [← hcheck, inside_resolveFile_iff, hfront.inside_iff]
    exact .inr fun hsuffix =>
      hend (hsuffix.trans (suffix_cons slash rest))

theorem inside_of_query_iff {front query : Bytes}
    (hfirst : (63 : Byte) ∉ front) :
    (∀ file, checkTarget (slash :: (front ++ 63 :: query)) = some file →
      Inside file) ↔ ¬ HidesParent front query := by
  have hcut : cutQuery (front ++ 63 :: query) = (front, some query) := by
    rw [cutQuery, splitFirst_append hfirst]
  have htested : testedPath (front, some query) =
      slash :: (front ++ 0 :: Cgi.webcgiOverwrite query) := rfl
  simp only [checkTarget, drop_one, tail_cons, hcut, htested]
  cases hleaves : leavesRoot
      (slash :: (front ++ 0 :: Cgi.webcgiOverwrite query)) front with
  | true =>
    have hrefused :
        ¬ (PassesFront front ∧ ¬ bytes "/.." <:+ Cgi.webcgiOverwrite query) := by
      rw [← suffix_tested_iff front, ← leavesRoot_eq_false_iff, hleaves]
      exact Bool.true_eq_false_eq_False
    constructor
    · exact fun _ hhides => hrefused ⟨hhides.front, hhides.notRefused⟩
    · intro _ file hcheck
      simp at hcheck
  | false =>
    obtain ⟨hfront, hend⟩ := (leavesRoot_eq_false_iff _ front).mp hleaves
    rw [suffix_tested_iff] at hend
    simp only [Bool.false_eq_true, if_false, Option.some.injEq, forall_eq']
    rw [inside_resolveFile_iff, getLast?_tested_iff, hfront.inside_iff]
    constructor
    · rintro (hreplaced | hparent) hhides
      · exact hhides.notReplaced hreplaced
      · exact hparent hhides.parent
    intro hhides
    by_cases hreplaced : (Cgi.webcgiOverwrite query).getLast? = some slash
    · exact .inl hreplaced
    · exact .inr fun hparent =>
        hhides ⟨hfirst, hfront, hparent, hend, hreplaced⟩

theorem requestTarget_head {text path : Bytes}
    (htarget : requestTarget text = some path) :
    ∃ file, path = slash :: file := by
  rw [requestTarget] at htarget
  split at htarget
  · cases htarget
  split at htarget
  · cases htarget
  next target _ _ =>
  split at htarget
  · cases htarget
  split at htarget
  · cases htarget
  · next hhead =>
    cases htarget
    rw [not_not] at hhead
    exact ⟨_, eq_cons_of_mem_head? hhead⟩

/-- The tests contain every request line but those whose query hides a
component that leads upwards. -/
theorem pathContained_iff (text : Bytes) :
    Contained text ↔
      ∀ file query, requestTarget text = some (slash :: (file ++ 63 :: query)) →
        ¬ HidesParent file query := by
  constructor
  · intro hcontained file query htarget hhides
    apply (inside_of_query_iff hhides.first).mp _ hhides
    intro opened hopened
    apply hcontained opened
    rw [letThrough_eq_bind, htarget, Option.bind_some, hopened]
  intro hnone opened hopened
  rw [letThrough_eq_bind, Option.bind_eq_some_iff] at hopened
  obtain ⟨path, htarget, hcheck⟩ := hopened
  obtain ⟨rest, rfl⟩ := requestTarget_head htarget
  cases hcut : splitFirst 63 rest with
  | none => exact inside_of_no_query (splitFirst_eq_none_iff.mp hcut) hcheck
  | some cut =>
    obtain ⟨file, query⟩ := cut
    obtain ⟨rfl, hfirst⟩ := splitFirst_eq_some_iff.mp hcut
    exact (inside_of_query_iff hfirst).mpr (hnone file query htarget)
      opened hcheck

/-- The test of the last three bytes looks at the end of the query. -/
theorem not_contained_query :
    ¬ Contained (bytes "GET /ext/..?x HTTP/1.1") := by
  intro hcontained
  have hopened : letThrough (bytes "GET /ext/..?x HTTP/1.1") =
      some (bytes "ext/..") := by decide +kernel
  exact absurd (hcontained (bytes "ext/..") hopened) (by decide)

end Tomato64.RequestPath
