import Mathlib.Tactic
import SymbolAtlas.Proofs.Extract.CallPattern
import SymbolAtlas.Proofs.Text.Utf8

/-!
# Calls that the tree does not report

The calls in the text of member bodies are taken one after the other (`TextCall.sites`). One that is
not reported becomes a dependency of its member, so that every call is reported in the end, and no
two of the new dependencies are alike.

A call counts as reported if a dependency reports it from a symbol whose name *begins* with that of
the member. So a report from the member itself can be missing where a longer name shadows it
(`TextCall.Shadowed`): `A.RunAll` shadows the calls of `A.Run` on lines that they share.

* `TextCall.Gathers` — what the dependencies found so far are, call by call.
* `TextCall.unreported_reports` — every call is reported by its member, or shadowed.
* `TextCall.unreported_shadowed` — a call that is shadowed.
-/

namespace SymbolAtlas

/-- The text of the member, which lies between whole characters of the masked text. -/
def MemberSpan.Holds (masked : Bytes) (m : MemberSpan) (text : List Char) : Prop :=
  ∃ before after, masked = Utf8.encode before ++ (Utf8.encode text ++ Utf8.encode after) ∧
    m.start = (Utf8.encode before).length ∧ m.stop = m.start + (Utf8.encode text).length

namespace TextCall

theorem inBody_of_holds {masked : Bytes} {m : MemberSpan} {text : List Char}
    (h : m.Holds masked text) : inBody masked m = collect [] 0 0 text := by
  obtain ⟨before, after, rfl, hstart, hstop⟩ := h
  have hfirst : (Utf8.encode before ++ (Utf8.encode text ++ Utf8.encode after)).isBoundary
      m.start = true := by
    rw [hstart, ← Utf8.encode_append]
    exact Utf8.isBoundary_encode before (text ++ after)
  have hlast : (Utf8.encode before ++ (Utf8.encode text ++ Utf8.encode after)).isBoundary
      m.stop = true := by
    have hend := Utf8.isBoundary_encode (before ++ text) after
    rwa [Utf8.encode_append, List.length_append, List.append_assoc, ← hstart, ← hstop] at hend
  have hslice : Bytes.slice (Utf8.encode before ++ (Utf8.encode text ++ Utf8.encode after))
      m.start m.stop = Utf8.encode text := by
    simp [Bytes.slice, hstop, hstart]
  have hle : m.start ≤ m.stop := by omega
  simp only [inBody, hfirst, hlast, hle, hslice, Utf8.decode?_encode, decide_true, Bool.and_true,
    if_true, Option.getD_some]

/-! ### Names of calls -/

theorem Scan.isName {row : Nat} {text : List Char} {calls : List TextCall}
    (h : Scan row text calls) : ∀ call ∈ calls, IsName call.name.toList := by
  induction h with
  | nil => simp
  | skip none later ih => exact ih
  | call begins later ih => exact List.forall_mem_cons.2 ⟨begins.isName, ih⟩

theorem isName_of_mem_inBody {masked : Bytes} {m : MemberSpan} {call : TextCall}
    (h : call ∈ inBody masked m) : IsName call.name.toList := by
  unfold inBody at h
  split at h
  · exact (scan_iff.2 rfl).isName call h
  · cases h

/-- A name has no dot, so that it ends in no other name behind one. -/
theorem IsName.eq_of_suffix {name other : String} (h : IsName other.toList)
    (hends : other = name ∨ '.' :: name.toList <:+ other.toList) : other = name := by
  rcases hends with heq | hsuffix
  · exact heq
  · have hdot := h.isWord '.' (hsuffix.subset List.mem_cons_self)
    exact absurd hdot (by decide +kernel)

/-! ### Reports -/

/-- The dependency is a call of `name` by `member` on the line. The name may be qualified. -/
structure Reports (member : String) (line : Nat) (name : String) (d : Dependency) : Prop where
  kind : d.kind = .calls
  line : d.line = line
  fromSymbol : d.fromSymbol = member
  toSymbol : d.toSymbol = name ∨ '.' :: name.toList <:+ d.toSymbol.toList

/-- The symbol begins with the name of the member, and goes on. -/
def Extends (symbol member : String) : Prop :=
  member.toList <+: symbol.toList ∧ symbol ≠ member

/-- What counts as a report is one of a symbol that begins with the name of the member. -/
theorem isReported_iff {member name : String} {line : Nat} {d : Dependency} :
    isReported member line name d = true ↔
      (d.fromSymbol = member ∨ Extends d.fromSymbol member) ∧ Reports d.fromSymbol line name d := by
  have hstarts : Str.startsWith d.fromSymbol member = true ↔
      d.fromSymbol = member ∨ Extends d.fromSymbol member := by
    rw [Str.startsWith, List.isPrefixOf_iff_prefix, Extends]
    by_cases heq : d.fromSymbol = member
    · simp [heq]
    · simp [heq]
  have hends : Str.endsWith d.toSymbol ("." ++ name) = true ↔
      '.' :: name.toList <:+ d.toSymbol.toList := by
    rw [Str.endsWith, List.isSuffixOf_iff_suffix]
    simp
  simp only [isReported, Bool.and_eq_true, Bool.or_eq_true, beq_iff_eq, hstarts, hends]
  constructor
  · rintro ⟨⟨⟨hkind, hline⟩, hfrom⟩, hto⟩
    exact ⟨hfrom, hkind, hline, rfl, hto⟩
  · rintro ⟨hfrom, hkind, hline, -, hto⟩
    exact ⟨⟨⟨hkind, hline⟩, hfrom⟩, hto⟩

/-- A call and the member whose body it stands in. -/
structure Site where
  member : MemberSpan
  call : TextCall

namespace Site

def line (s : Site) : Nat := s.member.startLine + s.call.row

/-- The dependency reports the call from its member. -/
def IsReported (s : Site) (d : Dependency) : Prop :=
  Reports s.member.qualifiedName s.line s.call.name d

/-- The dependency that a call is reported with. -/
def dependency (confidence : Single) (s : Site) : Dependency :=
  { Dependency.make s.member.qualifiedName s.call.name .calls s.line confidence with
    callingObject := s.call.receiver }

theorem isReported_dependency (confidence : Single) (s : Site) :
    s.IsReported (s.dependency confidence) where
  kind := rfl
  line := rfl
  fromSymbol := rfl
  toSymbol := Or.inl rfl

end Site

/-- A longer name than that of the member has a call of the same name on the line, in a dependency
or in a body that was read before. -/
inductive Shadowed (existing : List Dependency) (before : List Site) (s : Site) : Prop
  | dependency (d : Dependency) (mem : d ∈ existing)
      (longer : Extends d.fromSymbol s.member.qualifiedName)
      (reports : Reports d.fromSymbol s.line s.call.name d)
  | site (t : Site) (mem : t ∈ before)
      (longer : Extends t.member.qualifiedName s.member.qualifiedName)
      (line : t.line = s.line) (name : t.call.name = s.call.name)

/-! ### All calls -/

/-- The calls in the bodies, in the order in which they are read. -/
def sites (masked : Bytes) (members : List MemberSpan) : List Site :=
  members.flatMap fun m => (inBody masked m).map (Site.mk m)

variable {masked : Bytes} {existing : List Dependency} {confidence : Single}

theorem isName_of_mem_sites {members : List MemberSpan} {s : Site}
    (h : s ∈ sites masked members) : IsName s.call.name.toList := by
  obtain ⟨m, -, hs⟩ := List.mem_flatMap.1 h
  obtain ⟨call, hcall, rfl⟩ := List.mem_map.1 hs
  exact isName_of_mem_inBody hcall

/-- `add`, for a call with its member. -/
def addSite (existing : List Dependency) (confidence : Single) (found : List Dependency)
    (s : Site) : List Dependency :=
  add existing confidence s.member found s.call

theorem unreported_eq (masked : Bytes) (members : List MemberSpan) (existing : List Dependency)
    (confidence : Single) :
    unreported masked members existing confidence =
      (sites masked members).foldl (addSite existing confidence) [] := by
  simp only [unreported, sites, List.foldl_flatMap, List.foldl_map]
  rfl

/-- A call is left out if it is reported from a symbol that begins with the name of its member, and
otherwise it is added. -/
theorem addSite_cases (existing : List Dependency) (confidence : Single)
    (found : List Dependency) (s : Site) :
    (∃ d ∈ existing ++ found, isReported s.member.qualifiedName s.line s.call.name d = true) ∧
        addSite existing confidence found s = found ∨
      (∀ d ∈ existing ++ found, isReported s.member.qualifiedName s.line s.call.name d = false) ∧
        addSite existing confidence found s = found ++ [s.dependency confidence] := by
  by_cases hany : (existing ++ found).any
      (isReported s.member.qualifiedName s.line s.call.name) = true
  · exact Or.inl ⟨List.any_eq_true.1 hany, if_pos hany⟩
  · refine Or.inr ⟨fun d hd => ?_, if_neg hany⟩
    by_contra hd'
    exact hany (List.any_eq_true.2 ⟨d, hd, Bool.eq_true_of_not_eq_false hd'⟩)

/-- The calls `done` are read, and `found` are the dependencies for those that were not reported. -/
structure Gathers (existing : List Dependency) (confidence : Single) (done : List Site)
    (found : List Dependency) : Prop where
  origin : ∀ d ∈ found, ∃ s ∈ done, d = s.dependency confidence
  distinct : found.Pairwise fun d e =>
    (d.fromSymbol, d.toSymbol, d.line) ≠ (e.fromSymbol, e.toSymbol, e.line)
  covered : ∀ before s after, done = before ++ s :: after →
    (∃ d ∈ existing ++ found, s.IsReported d) ∨ Shadowed existing before s

theorem gathers_nil (existing : List Dependency) (confidence : Single) :
    Gathers existing confidence [] [] where
  origin := by simp
  distinct := .nil
  covered := by simp

namespace Gathers

variable {done : List Site} {found : List Dependency} {s : Site}

/-- A call that counts as reported is so by its member, or it is shadowed. -/
theorem covered_of_isReported (h : Gathers existing confidence done found)
    (hdone : ∀ t ∈ done, IsName t.call.name.toList) {d : Dependency}
    (hd : d ∈ existing ++ found)
    (hreported : isReported s.member.qualifiedName s.line s.call.name d = true) :
    (∃ d ∈ existing ++ found, s.IsReported d) ∨ Shadowed existing done s := by
  obtain ⟨heq | hlonger, hreports⟩ := isReported_iff.1 hreported
  · rw [heq] at hreports
    exact Or.inl ⟨d, hd, hreports⟩
  · rcases List.mem_append.1 hd with hd | hd
    · exact Or.inr (.dependency d hd hlonger hreports)
    · obtain ⟨t, ht, rfl⟩ := h.origin d hd
      exact Or.inr (.site t ht hlonger hreports.line ((hdone t ht).eq_of_suffix hreports.toSymbol))

/-- The covered calls stay so, whatever is found later. -/
theorem covered_append (h : Gathers existing confidence done found) (more : List Dependency)
    (hs : (∃ d ∈ existing ++ (found ++ more), s.IsReported d) ∨ Shadowed existing done s) :
    ∀ before t after, done ++ [s] = before ++ t :: after →
      (∃ d ∈ existing ++ (found ++ more), t.IsReported d) ∨ Shadowed existing before t := by
  intro before t after heq
  rcases List.eq_nil_or_concat after with rfl | ⟨after, last, rfl⟩
  · obtain ⟨rfl, hst⟩ := List.append_inj' heq rfl
    obtain rfl := List.singleton_inj.1 hst
    exact hs
  · rw [List.concat_eq_append, ← List.cons_append, ← List.append_assoc] at heq
    refine (h.covered before t after (List.append_inj' heq rfl).1).imp_left ?_
    rintro ⟨d, hd, hreports⟩
    refine ⟨d, ?_, hreports⟩
    rw [← List.append_assoc]
    exact List.mem_append_left more hd

theorem addSite (h : Gathers existing confidence done found)
    (hdone : ∀ t ∈ done, IsName t.call.name.toList) (s : Site) :
    Gathers existing confidence (done ++ [s]) (TextCall.addSite existing confidence found s) := by
  have horigin : ∀ d ∈ found, ∃ t ∈ done ++ [s], d = t.dependency confidence := fun d hd =>
    (h.origin d hd).imp fun _ => And.imp_left (List.mem_append_left [s])
  rcases addSite_cases existing confidence found s with ⟨⟨d, hd, hreported⟩, heq⟩ | ⟨hnone, heq⟩
  · rw [heq]
    refine ⟨horigin, h.distinct, ?_⟩
    simpa using h.covered_append [] (by simpa using h.covered_of_isReported hdone hd hreported)
  · rw [heq]
    refine ⟨?_, ?_, ?_⟩
    · refine List.forall_mem_append.2 ⟨horigin, ?_⟩
      exact List.forall_mem_singleton.2 ⟨s, by simp, rfl⟩
    · refine List.pairwise_append.2 ⟨h.distinct, List.pairwise_singleton _ _, fun d hd e he => ?_⟩
      obtain rfl := List.mem_singleton.1 he
      -- A dependency like the new one would have counted as a report of the call.
      intro hkey
      obtain ⟨t, -, rfl⟩ := h.origin d hd
      obtain ⟨hfrom, hkey⟩ := Prod.mk.inj hkey
      obtain ⟨hto, hline⟩ := Prod.mk.inj hkey
      have hreported := isReported_iff.2
        ⟨Or.inl hfrom, (rfl : _ = DependencyKind.calls), hline, rfl, Or.inl hto⟩
      have hno := hnone _ (List.mem_append_right existing hd)
      exact absurd (hno.symm.trans hreported) Bool.false_ne_true
    · exact h.covered_append _ (Or.inl ⟨s.dependency confidence, by simp,
        s.isReported_dependency confidence⟩)

theorem foldl_addSite (h : Gathers existing confidence done found) {more : List Site}
    (hnames : ∀ t ∈ done ++ more, IsName t.call.name.toList) :
    Gathers existing confidence (done ++ more)
      (more.foldl (TextCall.addSite existing confidence) found) := by
  induction more generalizing done found with
  | nil => simpa using h
  | cons s more ih =>
    have hnext := h.addSite (fun t ht => hnames t (List.mem_append_left _ ht)) s
    have hrest := ih hnext (by simpa using hnames)
    rwa [List.append_assoc] at hrest

end Gathers

theorem gathers_unreported (masked : Bytes) (members : List MemberSpan)
    (existing : List Dependency) (confidence : Single) :
    Gathers existing confidence (sites masked members)
      (unreported masked members existing confidence) := by
  rw [unreported_eq]
  exact (gathers_nil existing confidence).foldl_addSite fun t ht => isName_of_mem_sites ht

theorem sites_split (masked : Bytes) {front back : List MemberSpan} {m : MemberSpan}
    {pre post : List TextCall} {call : TextCall} (h : inBody masked m = pre ++ call :: post) :
    sites masked (front ++ m :: back) =
      (sites masked front ++ pre.map (Site.mk m)) ++
        ⟨m, call⟩ :: (post.map (Site.mk m) ++ sites masked back) := by
  simp [sites, h]

/-- No call in the body of the member shadows another. -/
theorem Shadowed.of_append {before : List Site} {m : MemberSpan} {calls : List TextCall}
    {call : TextCall} (h : Shadowed existing (before ++ calls.map (Site.mk m)) ⟨m, call⟩) :
    Shadowed existing before ⟨m, call⟩ := by
  cases h with
  | dependency d mem longer reports => exact .dependency d mem longer reports
  | site t mem longer line name =>
    rcases List.mem_append.1 mem with mem | mem
    · exact .site t mem longer line name
    · obtain ⟨other, -, rfl⟩ := List.mem_map.1 mem
      exact absurd rfl longer.2

/-- **No call in a body is missed**, except where a longer name shadows it. For every masked text,
all members, dependencies and confidences: the calls that are looked for in the body of a member are
those of the pattern, found from left to right; for each of them there is a dependency, given or
new, that reports it on its line and from exactly this member, unless a name that begins with that
of the member and goes on has a call of the same name on the line, in a given dependency or in a
body that comes before. And no two new dependencies agree in both symbols and the line. -/
theorem unreported_reports (masked : Bytes) (members : List MemberSpan)
    (existing : List Dependency) (confidence : Single) :
    (∀ front m back, members = front ++ m :: back → ∀ text, m.Holds masked text →
      (∀ calls, Scan 0 text calls ↔ calls = inBody masked m) ∧
      ∀ call ∈ inBody masked m,
        (∃ d ∈ existing ++ unreported masked members existing confidence,
          Reports m.qualifiedName (m.startLine + call.row) call.name d) ∨
        Shadowed existing (sites masked front) ⟨m, call⟩) ∧
    (unreported masked members existing confidence).Pairwise fun d e =>
      (d.fromSymbol, d.toSymbol, d.line) ≠ (e.fromSymbol, e.toSymbol, e.line) := by
  have hgathers := gathers_unreported masked members existing confidence
  refine ⟨?_, hgathers.distinct⟩
  rintro front m back rfl text htext
  refine ⟨fun calls => ?_, fun call hcall => ?_⟩
  · rw [inBody_of_holds htext]
    exact scan_iff
  · obtain ⟨pre, post, hsplit⟩ := List.append_of_mem hcall
    exact (hgathers.covered _ _ _ (sites_split masked hsplit)).imp_right Shadowed.of_append

/-- Two methods on one line. -/
def sharedLine : Bytes :=
  .ofString "class A \x7b void Run() \x7b new N.B(); \x7d void RunAll() \x7b x.B(); \x7d \x7d\n"

def runSpan : MemberSpan := { qualifiedName := "A.Run", start := 10, stop := 35, startLine := 1 }

def runAllSpan : MemberSpan :=
  { qualifiedName := "A.RunAll", start := 36, stop := 60, startLine := 1 }

/-- The shorter name does not shadow the longer one: the call in the second body is reported. -/
theorem unreported_reports_runAll :
    runAllSpan.Holds sharedLine "void RunAll() \x7b x.B(); \x7d".toList ∧
      inBody sharedLine runAllSpan = [{ receiver := some "x", name := "B", row := 0 }] ∧
      ∃ d ∈ unreported sharedLine [runSpan, runAllSpan] [] (.ofHundredths 40),
        Reports "A.RunAll" 1 "B" d := by
  have hholds : runAllSpan.Holds sharedLine "void RunAll() \x7b x.B(); \x7d".toList :=
    ⟨"class A \x7b void Run() \x7b new N.B(); \x7d ".toList, " \x7d\n".toList, by decide +kernel⟩
  have hcalls : inBody sharedLine runAllSpan =
      [{ receiver := some "x", name := "B", row := 0 }] := by decide +kernel
  refine ⟨hholds, hcalls, ?_⟩
  have hreports := ((unreported_reports sharedLine [runSpan, runAllSpan] [] (.ofHundredths 40)).1
    [runSpan] runAllSpan [] rfl _ hholds).2 { receiver := some "x", name := "B", row := 0 }
    (by simp [hcalls])
  rcases hreports with ⟨d, hd, hreports⟩ | hshadowed
  · rw [List.nil_append] at hd
    exact ⟨d, hd, hreports⟩
  · cases hshadowed with
    | dependency d mem => cases mem
    | site t mem longer =>
      obtain ⟨m, hm, ht⟩ := List.mem_flatMap.1 mem
      obtain ⟨call, -, rfl⟩ := List.mem_map.1 ht
      obtain rfl := List.mem_singleton.1 hm
      have hlonger : runAllSpan.qualifiedName.toList <+: runSpan.qualifiedName.toList := longer.1
      exact absurd hlonger (by decide)

/-- The call in the second body is given, and stands for the one in the first as well. -/
theorem unreported_shadowed :
    runSpan.Holds sharedLine "void Run() \x7b new N.B(); \x7d".toList ∧
      inBody sharedLine runSpan = [{ receiver := some "N", name := "B", row := 0 }] ∧
      ∀ d ∈ [Dependency.make "A.RunAll" "B" .calls 1 (.ofHundredths 50)] ++
          unreported sharedLine [runSpan, runAllSpan]
            [Dependency.make "A.RunAll" "B" .calls 1 (.ofHundredths 50)] (.ofHundredths 40),
        ¬ Reports "A.Run" 1 "B" d := by
  have hnone : unreported sharedLine [runSpan, runAllSpan]
      [Dependency.make "A.RunAll" "B" .calls 1 (.ofHundredths 50)] (.ofHundredths 40) = [] := by
    decide +kernel
  refine ⟨⟨"class A \x7b ".toList, " void RunAll() \x7b x.B(); \x7d \x7d\n".toList,
    by decide +kernel⟩, by decide +kernel, ?_⟩
  rw [hnone]
  intro d hd hreports
  obtain rfl := List.mem_singleton.1 hd
  exact absurd hreports.fromSymbol (by decide)

end TextCall

end SymbolAtlas
