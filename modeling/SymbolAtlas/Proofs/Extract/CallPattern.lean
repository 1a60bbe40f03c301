import Mathlib.Tactic
import SymbolAtlas.Extract.Textual

/-!
# The pattern of a call

What a call looks like in a text is said by a relation (`TextCall.Begins`), in which the parts of
the pattern only stand one after the other. A text begins with at most one call: each part ends
where a character stands that it cannot hold, so that taking as much as possible of every part finds
the call if there is one (`at?_eq_some_iff`).

The calls of a whole text are those found from left to right, each behind the end of the one before
(`TextCall.Scan`), with the number of line ends in front of them.

* `TextCall.at?_eq_some_iff` — the call that a text begins with.
* `TextCall.scan_iff` — the calls of a text.
-/

namespace SymbolAtlas

/-! ### Character classes -/

namespace CharTable

/-- Ranges that lie apart have no character in common. -/
theorem inRanges_eq_false {ranges others : List (Nat × Nat)}
    (hapart : ∀ r ∈ ranges, ∀ s ∈ others, r.2 < s.1 ∨ s.2 < r.1) {c : Nat}
    (hc : inRanges ranges c = true) : inRanges others c = false := by
  obtain ⟨r, hr, hrc⟩ := List.any_eq_true.1 hc
  rw [inRanges, List.any_eq_false]
  intro s hs
  have := hapart r hr s hs
  simp only [Bool.and_eq_true, decide_eq_true_eq] at hrc ⊢
  omega

end CharTable

namespace CharClass

theorem isWord_of_isSpace {c : Char} (h : isSpace c = true) : isWord c = false := by
  have halphabetic : isAlphabetic c = false :=
    CharTable.inRanges_eq_false (by decide +kernel) h
  have hextra : CharTable.inRanges CharTable.wordExtra c.toNat = false :=
    CharTable.inRanges_eq_false (by decide +kernel) h
  rw [isWord, halphabetic, hextra]
  rfl

theorem isWord_of_isNameStart {c : Char} (h : isNameStart c = true) : isWord c = true := by
  have hin (range : Nat × Nat) (hmem : range ∈ CharTable.alphabetic) (hlow : range.1 ≤ c.toNat)
      (hhigh : c.toNat ≤ range.2) : isWord c = true := by
    have halphabetic : isAlphabetic c = true :=
      List.any_eq_true.2 ⟨range, hmem, by simp [hlow, hhigh]⟩
    rw [isWord, halphabetic, Bool.true_or]
  rcases Bool.or_eq_true_iff.1 h with halpha | hunderscore
  · rcases Bool.or_eq_true_iff.1 halpha with hupper | hlower
    · obtain ⟨hlow, hhigh⟩ := of_decide_eq_true hupper
      exact hin (0x41, 0x5A) (by decide +kernel) hlow hhigh
    · obtain ⟨hlow, hhigh⟩ := Bool.and_eq_true_iff.1 hlower
      exact hin (0x61, 0x7A) (by decide +kernel) (of_decide_eq_true hlow) (of_decide_eq_true hhigh)
  · rw [beq_iff_eq.1 hunderscore]
    decide +kernel

end CharClass

namespace TextCall

/-! ### The parts of the pattern -/

/-- A letter or an underscore, and further characters of a word. -/
inductive IsName : List Char → Prop
  | mk {c : Char} {more : List Char} (start : CharClass.isNameStart c = true)
      (word : ∀ x ∈ more, CharClass.isWord x = true) : IsName (c :: more)

/-- Any number of spaces. -/
def IsSpacing (s : List Char) : Prop := ∀ c ∈ s, CharClass.isSpace c = true

/-- A name and spacing behind it, or nothing. -/
inductive IsReceiver : List Char → Option String → Prop
  | absent : IsReceiver [] none
  | name {w s : List Char} (name : IsName w) (spacing : IsSpacing s) :
      IsReceiver (w ++ s) (some (String.ofList w))

/-- A dot, or a question mark and a dot. -/
inductive IsDot : List Char → Prop
  | plain : IsDot ['.']
  | conditional : IsDot ['?', '.']

/-- Angle brackets around characters other than brackets and parentheses, or nothing. -/
inductive IsAngles : List Char → Prop
  | absent : IsAngles []
  | angles {inside : List Char} (plain : ∀ c ∈ inside, c ∉ ['<', '>', '(', ')']) :
      IsAngles ('<' :: inside ++ ['>'])

/-- The text begins with a call of `name`, on `receiver` if there is one, and goes on with `rest`
behind its opening parenthesis. -/
inductive Begins : List Char → Option String → String → List Char → Prop
  | mk {front dot s₁ w s₂ angles s₃ rest : List Char} {receiver : Option String}
      (isReceiver : IsReceiver front receiver) (isDot : IsDot dot) (spacing₁ : IsSpacing s₁)
      (isName : IsName w) (spacing₂ : IsSpacing s₂) (isAngles : IsAngles angles)
      (spacing₃ : IsSpacing s₃) :
      Begins (front ++ (dot ++ (s₁ ++ (w ++ (s₂ ++ (angles ++ (s₃ ++ '(' :: rest)))))))
        receiver (String.ofList w) rest

/-! ### Where a part ends -/

/-- The text does not begin with a character of the class. -/
def Stops (p : Char → Bool) (rest : List Char) : Prop := ∀ c ∈ rest.head?, p c = false

variable {p : Char → Bool} {w s rest cs : List Char}

theorem stops_cons {c : Char} (h : p c = false) (rest : List Char) : Stops p (c :: rest) := by
  rintro x ⟨⟩
  exact h

theorem Stops.append (h : Stops p rest) (hs : ∀ c ∈ s, p c = false) : Stops p (s ++ rest) := by
  cases s with
  | nil => exact h
  | cons c s => exact stops_cons (hs c List.mem_cons_self) _

theorem takeWhile_append_of_stops (hw : ∀ c ∈ w, p c = true) (h : Stops p rest) :
    (w ++ rest).takeWhile p = w := by
  rw [List.takeWhile_append_of_pos hw]
  cases rest with
  | nil => simp
  | cons c rest => simp [h c rfl]

theorem dropWhile_append_of_stops (hw : ∀ c ∈ w, p c = true) (h : Stops p rest) :
    (w ++ rest).dropWhile p = rest := by
  rw [List.dropWhile_append_of_pos hw]
  cases rest with
  | nil => rfl
  | cons c rest => simp [h c rfl]

theorem IsName.isWord (h : IsName w) : ∀ c ∈ w, CharClass.isWord c = true := by
  obtain ⟨start, word⟩ := h
  exact List.forall_mem_cons.2 ⟨CharClass.isWord_of_isNameStart start, word⟩

theorem IsName.name?_append (h : IsName w) (hrest : Stops CharClass.isWord rest) :
    name? (w ++ rest) = some (String.ofList w, rest) := by
  have htake := takeWhile_append_of_stops h.isWord hrest
  have hdrop := dropWhile_append_of_stops h.isWord hrest
  cases h with
  | mk start word =>
    rw [List.cons_append] at htake hdrop ⊢
    simp only [name?, if_pos start, htake, hdrop]

theorem IsName.stops_isSpace (h : IsName w) : Stops CharClass.isSpace (w ++ rest) := by
  cases h with
  | @mk c more start =>
    refine stops_cons ?_ _
    by_contra hspace
    have hword := CharClass.isWord_of_isSpace (Bool.eq_true_of_not_eq_false hspace)
    rw [CharClass.isWord_of_isNameStart start] at hword
    cases hword

theorem IsSpacing.trimStart_append (h : IsSpacing s) (hrest : Stops CharClass.isSpace rest) :
    Chars.trimStart (s ++ rest) = rest :=
  dropWhile_append_of_stops h hrest

theorem IsSpacing.stops_isWord (h : IsSpacing s) (hrest : Stops CharClass.isWord rest) :
    Stops CharClass.isWord (s ++ rest) :=
  hrest.append fun c hc => CharClass.isWord_of_isSpace (h c hc)

theorem IsDot.dot?_append (h : IsDot s) (rest : List Char) : dot? (s ++ rest) = some rest := by
  cases h <;> rfl

theorem IsDot.stops (h : IsDot s) (rest : List Char) (hdot : p '.' = false)
    (hmark : p '?' = false) : Stops p (s ++ rest) := by
  cases h with
  | plain => exact stops_cons hdot _
  | conditional => exact stops_cons hmark _

theorem IsAngles.stops (h : IsAngles s) (hangle : p '<' = false) (hrest : Stops p rest) :
    Stops p (s ++ rest) := by
  cases h with
  | absent => exact hrest
  | angles => exact stops_cons hangle _

/-- Behind the name of a call, its opening parenthesis is found. -/
theorem trimStart_skipAngles_append {s₂ angles s₃ : List Char} (h₂ : IsSpacing s₂)
    (hangles : IsAngles angles) (h₃ : IsSpacing s₃) (rest : List Char) :
    Chars.trimStart (skipAngles (Chars.trimStart (s₂ ++ (angles ++ (s₃ ++ '(' :: rest))))) =
      '(' :: rest := by
  have hparen : Stops CharClass.isSpace ('(' :: rest) := stops_cons (by decide +kernel) rest
  cases hangles with
  | absent =>
    have hspacing : IsSpacing (s₂ ++ s₃) := List.forall_mem_append.2 ⟨h₂, h₃⟩
    have hnone : skipAngles ('(' :: rest) = '(' :: rest := rfl
    rw [List.nil_append, ← List.append_assoc, hspacing.trimStart_append hparen, hnone]
    exact dropWhile_append_of_stops (w := []) (by simp) hparen
  | @angles inside plain =>
    have hinside : (inside ++ '>' :: (s₃ ++ '(' :: rest)).dropWhile
        (fun c => !(['<', '>', '(', ')'].contains c)) = '>' :: (s₃ ++ '(' :: rest) :=
      dropWhile_append_of_stops (fun c hc => by simpa using plain c hc) (stops_cons rfl _)
    have hskip : skipAngles ('<' :: (inside ++ '>' :: (s₃ ++ '(' :: rest))) =
        s₃ ++ '(' :: rest := by
      simp only [skipAngles, hinside]
    rw [List.cons_append, List.cons_append, List.append_assoc, List.singleton_append,
      h₂.trimStart_append (stops_cons (by decide +kernel) _), hskip, h₃.trimStart_append hparen]

theorem at?_of_begins {text : List Char} {receiver : Option String} {name : String}
    (h : Begins text receiver name rest) (row : Nat) :
    at? row text = some ({ receiver, name, row }, rest) := by
  obtain @⟨front, dot, s₁, w, s₂, angles, s₃, rest, receiver, isReceiver, isDot, spacing₁, isName,
    spacing₂, isAngles, spacing₃⟩ := h
  have hname : name? (w ++ (s₂ ++ (angles ++ (s₃ ++ '(' :: rest)))) =
      some (String.ofList w, s₂ ++ (angles ++ (s₃ ++ '(' :: rest))) := by
    refine isName.name?_append (spacing₂.stops_isWord (isAngles.stops (by decide +kernel) ?_))
    exact spacing₃.stops_isWord (stops_cons (by decide +kernel) _)
  have htrim : Chars.trimStart (s₁ ++ (w ++ (s₂ ++ (angles ++ (s₃ ++ '(' :: rest))))) =
      w ++ (s₂ ++ (angles ++ (s₃ ++ '(' :: rest))) :=
    spacing₁.trimStart_append isName.stops_isSpace
  have hparen := trimStart_skipAngles_append spacing₂ isAngles spacing₃ rest
  -- What follows the receiver is read alike with and without one.
  cases isReceiver with
  | absent =>
    have hnone : name? (dot ++ (s₁ ++ (w ++ (s₂ ++ (angles ++ (s₃ ++ '(' :: rest)))))) = none := by
      cases isDot <;> rfl
    simp only [List.nil_append, at?, hnone, isDot.dot?_append, htrim, hname, hparen,
      Option.bind_eq_bind, Option.bind_some]
  | @name v s isName' spacing =>
    have hdot : Stops CharClass.isSpace
        (dot ++ (s₁ ++ (w ++ (s₂ ++ (angles ++ (s₃ ++ '(' :: rest)))))) :=
      isDot.stops _ (by decide +kernel) (by decide +kernel)
    have hreceiver := isName'.name?_append
      (spacing.stops_isWord (isDot.stops (p := CharClass.isWord)
        (s₁ ++ (w ++ (s₂ ++ (angles ++ (s₃ ++ '(' :: rest))))) (by decide +kernel)
        (by decide +kernel)))
    simp only [List.append_assoc, at?, hreceiver, spacing.trimStart_append hdot,
      isDot.dot?_append, htrim, hname, hparen, Option.bind_eq_bind, Option.bind_some]

/-! ### Reading the parts -/

theorem exists_of_name? {name : String} (h : name? cs = some (name, rest)) :
    ∃ w, IsName w ∧ name = String.ofList w ∧ cs = w ++ rest := by
  cases cs with
  | nil => cases h
  | cons c cs =>
    simp only [name?] at h
    split at h
    case isTrue start =>
      obtain ⟨rfl, rfl⟩ := Prod.mk.inj (Option.some.inj h)
      have hword := CharClass.isWord_of_isNameStart start
      refine ⟨(c :: cs).takeWhile CharClass.isWord, ?_, rfl,
        (List.takeWhile_append_dropWhile).symm⟩
      rw [List.takeWhile_cons_of_pos hword]
      exact ⟨start, List.all_eq_true.1 List.all_takeWhile⟩
    case isFalse => cases h

theorem exists_trimStart (cs : List Char) : ∃ s, IsSpacing s ∧ cs = s ++ Chars.trimStart cs :=
  ⟨cs.takeWhile CharClass.isSpace, List.all_eq_true.1 List.all_takeWhile,
    (List.takeWhile_append_dropWhile).symm⟩

theorem exists_of_dot? (h : dot? cs = some rest) : ∃ dot, IsDot dot ∧ cs = dot ++ rest := by
  unfold dot? at h
  split at h
  · exact ⟨['.'], .plain, by rw [← Option.some.inj h]; rfl⟩
  · exact ⟨['?', '.'], .conditional, by rw [← Option.some.inj h]; rfl⟩
  · cases h

theorem exists_skipAngles (cs : List Char) :
    ∃ angles, IsAngles angles ∧ cs = angles ++ skipAngles cs := by
  unfold skipAngles
  split
  case h_1 inside =>
    dsimp only
    split
    case h_1 after hafter =>
      refine ⟨'<' :: inside.takeWhile (fun c => !(['<', '>', '(', ')'].contains c)) ++ ['>'],
        .angles fun c hc => ?_, ?_⟩
      · simpa using List.all_eq_true.1 List.all_takeWhile c hc
      · rw [List.append_assoc, List.singleton_append, ← hafter, List.cons_append,
          List.takeWhile_append_dropWhile]
    case h_2 => exact ⟨[], .absent, rfl⟩
  case h_2 => exact ⟨[], .absent, rfl⟩

/-- What is read behind a receiver, or in place of one, makes a call with it. -/
theorem begins_of_read {row : Nat} {front afterFront : List Char} {receiver : Option String}
    {call : TextCall} (hfront : IsReceiver front receiver)
    (h : (do
      let afterDot ← dot? afterFront
      let (name, afterName) ← name? (Chars.trimStart afterDot)
      match Chars.trimStart (skipAngles (Chars.trimStart afterName)) with
      | '(' :: rest => some ({ receiver, name, row : TextCall }, rest)
      | _ => none) = some (call, rest)) :
    call.row = row ∧ Begins (front ++ afterFront) call.receiver call.name rest := by
  simp only [Option.bind_eq_bind, Option.bind_eq_some_iff] at h
  obtain ⟨afterDot, hdot, ⟨name, afterName⟩, hname, h⟩ := h
  split at h
  case h_1 afterParen hparen =>
    obtain ⟨rfl, rfl⟩ := Prod.mk.inj (Option.some.inj h)
    obtain ⟨dot, isDot, rfl⟩ := exists_of_dot? hdot
    obtain ⟨s₁, hs₁, heq₁⟩ := exists_trimStart afterDot
    obtain ⟨w, hw, rfl, htrim⟩ := exists_of_name? hname
    obtain ⟨s₂, hs₂, heq₂⟩ := exists_trimStart afterName
    obtain ⟨angles, hangles, heqa⟩ := exists_skipAngles (Chars.trimStart afterName)
    obtain ⟨s₃, hs₃, heq₃⟩ := exists_trimStart (skipAngles (Chars.trimStart afterName))
    refine ⟨rfl, ?_⟩
    rw [heq₁, htrim, heq₂, heqa, heq₃, hparen]
    exact ⟨hfront, isDot, hs₁, hw, hs₂, hangles, hs₃⟩
  case h_2 => cases h

/-- The call that a text begins with is the one of the pattern. -/
theorem at?_eq_some_iff {row : Nat} {text : List Char} {call : TextCall} :
    at? row text = some (call, rest) ↔
      call.row = row ∧ Begins text call.receiver call.name rest := by
  constructor
  · intro h
    cases hname : name? text with
    | none =>
      simp only [at?, hname] at h
      exact begins_of_read .absent h
    | some found =>
      obtain ⟨w, hw, hfound, htext⟩ := exists_of_name? hname
      obtain ⟨s, hs, htrim⟩ := exists_trimStart found.2
      simp only [at?, hname] at h
      have hread := begins_of_read (hfound ▸ IsReceiver.name hw hs) h
      rwa [List.append_assoc, ← htrim, ← htext] at hread
  · rintro ⟨rfl, h⟩
    exact at?_of_begins h _

/-! ### The calls of a text -/

/-- The calls that are found in a text from left to right, none inside another. The text begins in
the given row. -/
inductive Scan : Nat → List Char → List TextCall → Prop
  | nil (row : Nat) : Scan row [] []
  | skip {row : Nat} {c : Char} {text : List Char} {calls : List TextCall}
      (none : ∀ receiver name rest, ¬ Begins (c :: text) receiver name rest)
      (later : Scan (row + [c].count '\n') text calls) : Scan row (c :: text) calls
  | call {row : Nat} {whole rest : List Char} {receiver : Option String} {name : String}
      {calls : List TextCall} (begins : Begins (whole ++ rest) receiver name rest)
      (later : Scan (row + whole.count '\n') rest calls) :
      Scan row (whole ++ rest) ({ receiver, name, row } :: calls)

/-- A call takes up part of the text. -/
theorem Begins.exists_whole {text : List Char} {receiver : Option String} {name : String}
    (h : Begins text receiver name rest) : ∃ whole, whole ≠ [] ∧ text = whole ++ rest := by
  obtain @⟨front, dot, s₁, w, s₂, angles, s₃, rest, receiver, isReceiver, isDot, spacing₁, isName,
    spacing₂, isAngles, spacing₃⟩ := h
  exact ⟨front ++ (dot ++ (s₁ ++ (w ++ (s₂ ++ (angles ++ (s₃ ++ ['('])))))), by simp, by simp⟩

theorem Begins.isName {text : List Char} {receiver : Option String} {name : String}
    (h : Begins text receiver name rest) : IsName name.toList := by
  obtain ⟨-, -, -, isName, -, -, -⟩ := h
  simpa using isName

theorem exists_scan (row : Nat) (text : List Char) : ∃ calls, Scan row text calls := by
  induction hlength : text.length using Nat.strong_induction_on generalizing row text with
  | _ n ih =>
    cases text with
    | nil => exact ⟨[], .nil row⟩
    | cons c text =>
      by_cases hbegins : ∃ receiver name rest, Begins (c :: text) receiver name rest
      · obtain ⟨receiver, name, rest, h⟩ := hbegins
        obtain ⟨whole, hne, heq⟩ := h.exists_whole
        have hpos := List.length_pos_iff.2 hne
        have hsum := congrArg List.length heq
        rw [List.length_append] at hsum
        obtain ⟨calls, hcalls⟩ := ih rest.length (by omega) (row + whole.count '\n') rest rfl
        rw [heq] at h ⊢
        exact ⟨_, .call h hcalls⟩
      · push Not at hbegins
        have hshorter : text.length < n := hlength ▸ Nat.lt_succ_self text.length
        obtain ⟨calls, hcalls⟩ := ih text.length hshorter (row + [c].count '\n') text rfl
        exact ⟨calls, .skip hbegins hcalls⟩

theorem row_add_count (row : Nat) (c : Char) (text : List Char) :
    (if c == '\n' then row + 1 else row) + text.count '\n' = row + (c :: text).count '\n' := by
  rw [List.count_cons]
  split <;> omega

/-- The rest of a call is passed over, with its line ends. -/
theorem collect_skip (found : List TextCall) (row : Nat) (whole rest : List Char) :
    collect found row whole.length (whole ++ rest) =
      collect found (row + whole.count '\n') 0 rest := by
  induction whole generalizing row with
  | nil => rfl
  | cons c whole ih =>
    rw [List.length_cons, List.cons_append, collect, ih, row_add_count]

theorem Scan.collect_eq {row : Nat} {text : List Char} {calls : List TextCall}
    (h : Scan row text calls) (found : List TextCall) :
    collect found row 0 text = found.reverse ++ calls := by
  induction h generalizing found with
  | nil row => simp [collect]
  | @skip row c text calls none later ih =>
    have hat : at? row (c :: text) = .none := by
      rw [Option.eq_none_iff_forall_ne_some]
      intro result hresult
      exact none _ _ _ (at?_eq_some_iff.1 hresult).2
    have hrow := row_add_count row c []
    rw [List.count_nil, Nat.add_zero] at hrow
    simp only [collect, hat, hrow, ih]
  | @call row whole rest receiver name calls begins later ih =>
    have hat := at?_of_begins begins row
    cases whole with
    | nil =>
      obtain ⟨whole, hne, heq⟩ := begins.exists_whole
      exact absurd (List.self_eq_append_left.1 heq) hne
    | cons c whole =>
      have hlength : (whole ++ rest).length - rest.length = whole.length := by simp
      rw [List.cons_append] at hat ⊢
      simp only [collect, hat, hlength, collect_skip, row_add_count, ih, List.reverse_cons,
        List.append_assoc, List.singleton_append]

/-- A text has one scan, which is what is collected from it. -/
theorem scan_iff {text : List Char} {calls : List TextCall} :
    Scan 0 text calls ↔ calls = collect [] 0 0 text := by
  constructor
  · intro h
    exact (h.collect_eq []).symm
  · rintro rfl
    obtain ⟨calls, h⟩ := exists_scan 0 text
    rwa [h.collect_eq []]

end TextCall

end SymbolAtlas
