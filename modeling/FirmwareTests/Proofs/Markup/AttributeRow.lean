import FirmwareTests.Markup.Attribute
import FirmwareTests.Proofs.Markup.Boundary

/-!
# Rows of attributes

The text of a tag is read as attributes without a fault exactly when it is a row of
them: keys that are all different, equals signs and quoted values, with white space
between. A row in its usual spelling is read back as long as no value holds a double
quote.
-/

namespace FirmwareTests
namespace Markup

open Text

def IsBlank (cs : List Char) : Prop :=
  ∀ c ∈ cs, isSpace c = true

/-- A key may begin with an equals sign but not hold one further on. -/
def IsKey : List Char → Prop
  | [] => False
  | first :: more => isSpace first = false ∧ ∀ c ∈ more, endsKey c = false

/-- A row of attributes, given the keys before it. -/
inductive Row : List (List Char) → List Char → List Attribute → Prop
  | nil {seen : List (List Char)} {blank : List Char} : IsBlank blank → Row seen blank []
  | cons {seen : List (List Char)} {b₁ key b₂ b₃ value rest : List Char} {quote : Char}
      {attributes : List Attribute} :
      IsBlank b₁ → IsKey key → key ∉ seen → IsBlank b₂ → IsBlank b₃ → isQuote quote = true →
      quote ∉ value → Row (seen ++ [key]) rest attributes →
      Row seen (b₁ ++ (key ++ (b₂ ++ '=' :: (b₃ ++ quote :: (value ++ quote :: rest)))))
        (⟨key, value⟩ :: attributes)

/-! ### Reading one attribute -/

theorem isBlank_takeWhile (cs : List Char) : IsBlank (cs.takeWhile isSpace) :=
  fun c hc => List.all_eq_true.mp List.all_takeWhile c hc

theorem skipSpace_append {blank : List Char} (hblank : IsBlank blank) {first : Char}
    (hfirst : isSpace first = false) (position : Nat) (rest : List Char) :
    skipSpace position (blank ++ first :: rest) =
      (position + byteLength blank, first :: rest) := by
  rw [skipSpace, takeWhile_append_stop hblank hfirst, dropWhile_append_stop hblank hfirst]

theorem skipSpace_of_isBlank {blank : List Char} (hblank : IsBlank blank) (position : Nat) :
    skipSpace position blank = (position + byteLength blank, []) := by
  rw [skipSpace, List.takeWhile_eq_self_iff.mpr hblank, List.dropWhile_eq_nil_iff.mpr hblank]

/-- A text is its leading white space and what begins after it. -/
theorem eq_append_skipSpace (position : Nat) (cs : List Char) :
    cs = cs.takeWhile isSpace ++ (skipSpace position cs).2 :=
  List.takeWhile_append_dropWhile.symm

theorem isSpace_eq_false_of_skipSpace {position : Nat} {cs more : List Char} {first : Char}
    (h : (skipSpace position cs).2 = first :: more) : isSpace first = false := by
  have hhead := List.head?_dropWhile_not isSpace cs
  rw [show cs.dropWhile isSpace = first :: more from h] at hhead
  simpa using hhead

theorem readKey_append (first : Char) {more blank : List Char}
    (hmore : ∀ c ∈ more, endsKey c = false) (hblank : IsBlank blank) (position : Nat)
    (rest : List Char) : ∃ after,
      readKey position first (more ++ (blank ++ '=' :: rest)) = .ok ⟨first :: more, after, rest⟩ := by
  have hkey : ∀ c ∈ more, (!endsKey c) = true := by
    intro c hc
    rw [hmore c hc]
    rfl
  obtain ⟨stop, cs, hcs, hstop⟩ : ∃ stop cs,
      blank ++ '=' :: rest = stop :: cs ∧ (!endsKey stop) = false := by
    cases blank with
    | nil => exact ⟨'=', rest, rfl, rfl⟩
    | cons b blank => exact ⟨b, _, rfl, by simp [endsKey, hblank b List.mem_cons_self]⟩
  rw [readKey, hcs, takeWhile_append_stop hkey hstop, dropWhile_append_stop hkey hstop, ← hcs,
    skipSpace_append hblank (by rfl)]
  exact ⟨_, rfl⟩

theorem eq_append_of_readKey {position : Nat} {first : Char} {cs : List Char} {part : Part}
    (h : readKey position first cs = .ok part) : ∃ more blank,
      part.content = first :: more ∧ (∀ c ∈ more, endsKey c = false) ∧ IsBlank blank ∧
        cs = more ++ (blank ++ '=' :: part.rest) := by
  have hkey : ∀ c ∈ cs.takeWhile (fun c => !endsKey c), endsKey c = false := by
    intro c hc
    simpa using List.all_eq_true.mp (List.all_takeWhile (l := cs)) c hc
  simp only [readKey] at h
  split at h
  · next rest hrest =>
    cases h
    refine ⟨_, _, rfl, hkey, isBlank_takeWhile (cs.dropWhile fun c => !endsKey c), ?_⟩
    rw [← hrest, ← eq_append_skipSpace, List.takeWhile_append_dropWhile]
  · cases h

theorem readValue_append {blank value : List Char} {quote : Char} (hblank : IsBlank blank)
    (hquote : isQuote quote = true) (hvalue : quote ∉ value) (position : Nat)
    (rest : List Char) : ∃ after,
      readValue position (blank ++ quote :: (value ++ quote :: rest)) =
        .ok ⟨value, after, rest⟩ := by
  have hspace : isSpace quote = false := by
    rcases (Bool.or_eq_true _ _).mp hquote with h | h
    · rw [eq_of_beq h]
      rfl
    · rw [eq_of_beq h]
      rfl
  have hne := forall_ne_of_notMem hvalue
  simp [readValue, skipSpace_append hblank hspace, hquote, takeWhile_append_stop hne,
    dropWhile_append_stop hne]

theorem eq_append_of_readValue {position : Nat} {cs : List Char} {part : Part}
    (h : readValue position cs = .ok part) : ∃ blank quote,
      IsBlank blank ∧ isQuote quote = true ∧ quote ∉ part.content ∧
        cs = blank ++ quote :: (part.content ++ quote :: part.rest) := by
  simp only [readValue] at h
  split at h
  · cases h
  · next quote body hbody =>
    split at h
    · next hquote =>
      split at h
      · next c rest hrest =>
        cases h
        rcases exists_split_or_notMem quote body with ⟨value, rest', hnot, rfl⟩ | hnot
        · have hne := forall_ne_of_notMem hnot
          rw [dropWhile_append_stop hne (by simp)] at hrest
          cases hrest
          simp only [takeWhile_append_stop hne (bne_self_eq_false _)]
          refine ⟨_, quote, isBlank_takeWhile cs, hquote, hnot, ?_⟩
          rw [← hbody]
          exact eq_append_skipSpace position cs
        · rw [List.dropWhile_eq_nil_iff.mpr (forall_ne_of_notMem hnot)] at hrest
          cases hrest
      · cases h
    · cases h

theorem isQuote_of_readValue {position : Nat} {first : Char} {cs : List Char} {part : Part}
    (hfirst : isSpace first = false) (h : readValue position (first :: cs) = .ok part) :
    isQuote first = true := by
  obtain ⟨blank, quote, hblank, hquote, -, hsplit⟩ := eq_append_of_readValue h
  cases blank with
  | nil =>
    obtain ⟨rfl, -⟩ := List.cons.inj hsplit
    exact hquote
  | cons b blank =>
    obtain ⟨rfl, -⟩ := List.cons.inj hsplit
    rw [hblank first List.mem_cons_self] at hfirst
    cases hfirst

/-- A key and a value with the blanks and quotes that were read around them. -/
theorem eq_append_of_read {position : Nat} {cs more : List Char} {first : Char} {key value : Part}
    (hskip : (skipSpace position cs).2 = first :: more)
    (hkey : readKey (skipSpace position cs).1 first more = .ok key)
    (hvalue : readValue key.position key.rest = .ok value) : ∃ b₁ b₂ b₃ quote,
      IsBlank b₁ ∧ IsKey key.content ∧ IsBlank b₂ ∧ IsBlank b₃ ∧ isQuote quote = true ∧
        quote ∉ value.content ∧ cs = b₁ ++ (key.content ++ (b₂ ++ '=' ::
          (b₃ ++ quote :: (value.content ++ quote :: value.rest)))) := by
  obtain ⟨more', b₂, hcontent, hmore, hb₂, hafterKey⟩ := eq_append_of_readKey hkey
  obtain ⟨b₃, quote, hb₃, hquote, hnot, hafterValue⟩ := eq_append_of_readValue hvalue
  have hcs := eq_append_skipSpace position cs
  rw [hskip, hafterKey, hafterValue] at hcs
  rw [hcontent]
  exact ⟨_, b₂, b₃, quote, isBlank_takeWhile cs, ⟨isSpace_eq_false_of_skipSpace hskip, hmore⟩,
    hb₂, hb₃, hquote, hnot, hcs⟩

/-- A text that begins with an attribute, in any spelling of it, and the rest behind. -/
inductive Begins : Attribute → List Char → List Char → Prop
  | intro {b₁ key b₂ b₃ value rest : List Char} {quote : Char} :
      IsBlank b₁ → IsKey key → IsBlank b₂ → IsBlank b₃ → isQuote quote = true → quote ∉ value →
      Begins ⟨key, value⟩ rest
        (b₁ ++ (key ++ (b₂ ++ '=' :: (b₃ ++ quote :: (value ++ quote :: rest)))))

/-- The attribute that a text begins with is the one that is read. -/
theorem Begins.reads {a : Attribute} {rest cs : List Char} (h : Begins a rest cs)
    (position : Nat) : ∃ start first more key value,
      skipSpace position cs = (start, first :: more) ∧ readKey start first more = .ok key ∧
        readValue key.position key.rest = .ok value ∧
          key.content = a.key ∧ value.content = a.value ∧ value.rest = rest := by
  cases h with
  | @intro b₁ key b₂ b₃ value rest quote hb₁ hkey hb₂ hb₃ hquote hvalue =>
    cases key with
    | nil => cases hkey
    | cons first more =>
      obtain ⟨afterKey, hreadKey⟩ := readKey_append first hkey.2 hb₂
        (position + byteLength b₁) (b₃ ++ quote :: (value ++ quote :: rest))
      obtain ⟨afterValue, hreadValue⟩ := readValue_append hb₃ hquote hvalue afterKey rest
      exact ⟨_, first, _, _, _, skipSpace_append hb₁ hkey.1 position _, hreadKey, hreadValue,
        rfl, rfl, rfl⟩

theorem Begins.unique {a a' : Attribute} {rest rest' cs : List Char} (h : Begins a rest cs)
    (h' : Begins a' rest' cs) : a = a' ∧ rest = rest' := by
  obtain ⟨start, first, more, key, value, hskip, hkey, hvalue, hkeyEq, hvalueEq, hrest⟩ :=
    h.reads 0
  obtain ⟨start', first', more', key', value', hskip', hkey', hvalue', hkeyEq', hvalueEq',
    hrest'⟩ := h'.reads 0
  rw [hskip, Prod.mk.injEq, List.cons.injEq] at hskip'
  obtain ⟨rfl, rfl, rfl⟩ := hskip'
  rw [hkey, Except.ok.injEq] at hkey'
  subst hkey'
  rw [hvalue, Except.ok.injEq] at hvalue'
  subst hvalue'
  obtain ⟨key₁, value₁⟩ := a
  obtain ⟨key₂, value₂⟩ := a'
  simp only at hkeyEq hvalueEq hkeyEq' hvalueEq'
  simp [← hkeyEq, ← hvalueEq, ← hrest, ← hkeyEq', ← hvalueEq', ← hrest']

/-! ### Reading a row -/

namespace AttributeList

theorem readFrom_of_isBlank (seen : List (List Char × Nat)) (position : Nat) {blank : List Char}
    (hblank : IsBlank blank) : readFrom seen position blank = ⟨[], none⟩ := by
  rw [readFrom]
  split
  · rfl
  · next h =>
    rw [skipSpace_of_isBlank hblank] at h
    cases h

theorem find?_seen_eq_none {seen : List (List Char × Nat)} {key : List Char}
    (h : key ∉ seen.map Prod.fst) : (seen.find? fun k => k.1 == key) = none := by
  rw [List.find?_eq_none]
  intro k hk heq
  exact h (eq_of_beq heq ▸ List.mem_map_of_mem hk)

theorem notMem_of_find?_seen {seen : List (List Char × Nat)} {key : List Char}
    (h : (seen.find? fun k => k.1 == key) = none) : key ∉ seen.map Prod.fst := by
  intro hmem
  obtain ⟨previous, hprevious, heq⟩ := List.mem_map.mp hmem
  exact List.find?_eq_none.mp h previous hprevious (beq_iff_eq.mpr heq)

theorem nodup_append_key {seen : List (List Char)} {key : List Char} (hseen : seen.Nodup)
    (hnew : key ∉ seen) : (seen ++ [key]).Nodup := by
  rw [List.nodup_append]
  refine ⟨hseen, by simp, ?_⟩
  intro k hk k' hk' heq
  rw [heq, List.mem_singleton.mp hk'] at hk
  exact hnew hk

theorem readFrom_attribute {seen : List (List Char × Nat)} {position start : Nat}
    {cs more : List Char} {first : Char} {key value : Part}
    (hskip : skipSpace position cs = (start, first :: more))
    (hkey : readKey start first more = .ok key)
    (hnew : (seen.find? fun k => k.1 == key.content) = none)
    (hvalue : readValue key.position key.rest = .ok value) :
    readFrom seen position cs =
      (readFrom (seen ++ [(key.content, start)]) value.position value.rest).cons
        ⟨key.content, value.content⟩ := by
  obtain rfl : (skipSpace position cs).1 = start := congrArg Prod.fst hskip
  rw [readFrom]
  split
  · next h =>
    rw [hskip] at h
    cases h
  · next first' more' h =>
    rw [hskip] at h
    obtain ⟨rfl, rfl⟩ := List.cons.inj h
    dsimp only
    split
    · next fault h => simp [hkey] at h
    · next key' h =>
      rw [hkey] at h
      obtain rfl := Except.ok.inj h
      split
      · next previous h => simp [hnew] at h
      · split
        · next fault h => simp [hvalue] at h
        · next value' h =>
          rw [hvalue] at h
          obtain rfl := Except.ok.inj h
          rfl

theorem readFrom_of_row {seen : List (List Char × Nat)} {cs : List Char}
    {attributes : List Attribute} (h : Row (seen.map Prod.fst) cs attributes) (position : Nat) :
    readFrom seen position cs = ⟨attributes, none⟩ := by
  generalize hkeys : seen.map Prod.fst = keys at h
  induction h generalizing seen position with
  | nil hblank => exact readFrom_of_isBlank seen position hblank
  | @cons keys b₁ key b₂ b₃ value rest quote attributes hb₁ hkey hnew hb₂ hb₃ hquote hvalue _
      ih =>
    subst hkeys
    have hbegins : Begins ⟨key, value⟩ rest _ := .intro hb₁ hkey hb₂ hb₃ hquote hvalue
    obtain ⟨start, first, more, keyPart, valuePart, hskip, hreadKey, hreadValue, rfl, rfl, rfl⟩ :=
      hbegins.reads position
    have hkeys : (seen ++ [(keyPart.content, start)]).map Prod.fst =
        seen.map Prod.fst ++ [keyPart.content] := by
      simp
    rw [readFrom_attribute hskip hreadKey (find?_seen_eq_none hnew) hreadValue,
      ih valuePart.position hkeys, cons]

theorem row_of_readFrom {seen : List (List Char × Nat)} {position : Nat}
    {cs : List Char} {attributes : List Attribute}
    (h : readFrom seen position cs = ⟨attributes, none⟩) :
    Row (seen.map Prod.fst) cs attributes := by
  fun_induction readFrom seen position cs generalizing attributes with
  | case1 seen position cs hskip =>
    cases h
    have hcs := eq_append_skipSpace position cs
    rw [hskip, List.append_nil] at hcs
    rw [hcs]
    exact .nil (isBlank_takeWhile cs)
  | case2 | case3 | case4 => cases h
  | case5 seen position cs first more hskip start key hkey hnew value hvalue _ =>
    rename_i ih
    obtain ⟨b₁, b₂, b₃, quote, hb₁, hcontent, hb₂, hb₃, hquote, hnot, hcs⟩ :=
      eq_append_of_read hskip hkey hvalue
    cases hrest : readFrom (seen ++ [(key.content, start)]) value.position value.rest with
    | mk rest fault =>
      rw [hrest, cons] at h
      cases h
      have hrow := ih hrest
      rw [List.map_append, List.map_singleton] at hrow
      rw [hcs]
      exact .cons hb₁ hcontent (notMem_of_find?_seen hnew) hb₂ hb₃ hquote hnot hrow

theorem readFrom_eq_iff {seen : List (List Char × Nat)} {position : Nat} {cs : List Char}
    {attributes : List Attribute} :
    readFrom seen position cs = ⟨attributes, none⟩ ↔ Row (seen.map Prod.fst) cs attributes := by
  constructor
  · exact row_of_readFrom
  · intro h
    exact readFrom_of_row h position

/-- No two attributes of a list have the same key, wherever a fault ends it. -/
theorem nodup_readFrom (seen : List (List Char × Nat)) (position : Nat) (cs : List Char)
    (hseen : (seen.map Prod.fst).Nodup) :
    (seen.map Prod.fst ++ (readFrom seen position cs).attributes.map Attribute.key).Nodup := by
  fun_induction readFrom seen position cs with
  | case1 | case2 | case3 | case4 => simpa [broken] using hseen
  | case5 seen position cs first more hskip start key hkey hnew value hvalue _ ih =>
    have hkeys : ((seen ++ [(key.content, start)]).map Prod.fst).Nodup := by
      rw [List.map_append, List.map_singleton]
      exact nodup_append_key hseen (notMem_of_find?_seen hnew)
    have hrest := ih hkeys
    rw [List.map_append, List.map_singleton, List.append_assoc, List.singleton_append] at hrest
    exact hrest

end AttributeList

theorem Tag.nodup_attributes (tag : Tag) :
    (tag.attributes.attributes.map Attribute.key).Nodup :=
  AttributeList.nodup_readFrom [] _ _ List.nodup_nil

theorem Row.isKey {seen : List (List Char)} {cs : List Char} {attributes : List Attribute}
    (h : Row seen cs attributes) : ∀ a ∈ attributes, IsKey a.key := by
  induction h with
  | nil => simp
  | cons _ hkey _ _ _ _ _ _ ih =>
    intro a ha
    rcases List.mem_cons.mp ha with rfl | ha
    · exact hkey
    · exact ih a ha

theorem Row.nodup {seen : List (List Char)} {cs : List Char} {attributes : List Attribute}
    (h : Row seen cs attributes) (hseen : seen.Nodup) :
    (seen ++ attributes.map Attribute.key).Nodup := by
  induction h with
  | nil => simpa using hseen
  | @cons seen b₁ key _ _ _ _ _ attributes _ _ hnew _ _ _ _ _ ih =>
    simpa using ih (AttributeList.nodup_append_key hseen hnew)

/-! ### Quotes and brackets -/

theorem quoteAfter_of_isQuote {c : Char} (h : isQuote c = true) : quoteAfter none c = some c := by
  have hc : c = '"' ∨ c = '\'' := by simpa [isQuote] using h
  simp [quoteAfter, hc]

theorem quoteAfter_of_not_isQuote {c : Char} (h : isQuote c = false) :
    quoteAfter none c = none := by
  have hc : ¬ (c = '"' ∨ c = '\'') := by simpa [isQuote] using h
  simp [quoteAfter, hc]

theorem quoteAfterAll_unquoted {cs : List Char} (h : ∀ c ∈ cs, isQuote c = false) :
    quoteAfterAll none cs = none := by
  induction cs with
  | nil => rfl
  | cons c cs ih =>
    rw [quoteAfterAll_cons, quoteAfter_of_not_isQuote (h c List.mem_cons_self)]
    exact ih fun d hd => h d (List.mem_cons_of_mem c hd)

theorem isWithinTag_unquoted_iff {cs : List Char} (h : ∀ c ∈ cs, isQuote c = false) :
    isWithinTag none cs = true ↔ '>' ∉ cs := by
  induction cs with
  | nil => simp
  | cons c cs ih =>
    have ih := ih fun d hd => h d (List.mem_cons_of_mem c hd)
    have hc : c ≠ '>' ↔ '>' ≠ c := ne_comm
    rw [isWithinTag, quoteAfter_of_not_isQuote (h c List.mem_cons_self), Bool.and_eq_true, ih,
      List.mem_cons, not_or, ← ne_eq, ← hc]
    simp

theorem quoteAfterAll_inside {quote : Char} {value : List Char} (h : quote ∉ value) :
    quoteAfterAll (some quote) value = some quote := by
  induction value with
  | nil => rfl
  | cons c value ih =>
    rw [List.mem_cons, not_or] at h
    obtain ⟨hc, hvalue⟩ := h
    rw [quoteAfterAll_cons, quoteAfter, if_neg (Ne.symm hc)]
    exact ih hvalue

theorem isWithinTag_inside {quote : Char} {value : List Char} (h : quote ∉ value) :
    isWithinTag (some quote) value = true := by
  induction value with
  | nil => rfl
  | cons c value ih =>
    rw [List.mem_cons, not_or] at h
    obtain ⟨hc, hvalue⟩ := h
    rw [isWithinTag, quoteAfter, if_neg (Ne.symm hc), ih hvalue]
    rfl

theorem IsBlank.unquoted {blank : List Char} (h : IsBlank blank) :
    ∀ c ∈ blank, isQuote c = false := by
  intro c hc
  have hspace := h c hc
  simp only [isSpace, Bool.or_eq_true, beq_iff_eq] at hspace
  rcases hspace with ((rfl | rfl) | rfl) | rfl <;> rfl

theorem isWholeTag_unquoted {cs : List Char} (hquote : ∀ c ∈ cs, isQuote c = false)
    (hbracket : '>' ∉ cs) : IsWholeTag cs :=
  ⟨(isWithinTag_unquoted_iff hquote).mpr hbracket, quoteAfterAll_unquoted hquote⟩

theorem isWholeTag_quoted {quote : Char} {value : List Char} (hquote : isQuote quote = true)
    (hvalue : quote ∉ value) : IsWholeTag (quote :: (value ++ [quote])) := by
  have hafter := quoteAfter_of_isQuote hquote
  constructor
  · have hne : (quote == '>') = false := by
      rw [beq_eq_false_iff_ne]
      rintro rfl
      cases hquote
    rw [isWithinTag, hafter, hne, Bool.and_false, Bool.not_false, Bool.true_and,
      isWithinTag_append, quoteAfterAll_inside hvalue]
    exact ⟨isWithinTag_inside hvalue, rfl⟩
  · rw [quoteAfterAll_cons, hafter, quoteAfterAll_append, quoteAfterAll_inside hvalue]
    simp [quoteAfter]

/-- Keys without quotes stand outside quotes, so no bracket is in them. -/
theorem Row.notMem_key {seen : List (List Char)} {cs : List Char} {attributes : List Attribute}
    (h : Row seen cs attributes) (hwithin : isWithinTag none cs = true)
    (hkeys : ∀ a ∈ attributes, ∀ c ∈ a.key, isQuote c = false) :
    ∀ a ∈ attributes, '>' ∉ a.key := by
  induction h with
  | nil => simp
  | @cons seen b₁ key b₂ b₃ value rest quote attributes hb₁ hkey _ hb₂ hb₃ hquote hvalue _ ih =>
    have hunquoted := hkeys _ List.mem_cons_self
    have hequals : ∀ c ∈ ['='], isQuote c = false := by simp [isQuote]
    have hcs : b₁ ++ (key ++ (b₂ ++ '=' :: (b₃ ++ quote :: (value ++ quote :: rest)))) =
        b₁ ++ (key ++ (b₂ ++ (['='] ++ (b₃ ++ (quote :: (value ++ [quote]) ++ rest))))) := by
      simp
    rw [hcs, isWithinTag_append, quoteAfterAll_unquoted hb₁.unquoted, isWithinTag_append,
      quoteAfterAll_unquoted hunquoted, isWithinTag_append, quoteAfterAll_unquoted hb₂.unquoted,
      isWithinTag_append, quoteAfterAll_unquoted hequals, isWithinTag_append,
      quoteAfterAll_unquoted hb₃.unquoted, isWithinTag_append,
      (isWholeTag_quoted hquote hvalue).2] at hwithin
    obtain ⟨-, hkeyWithin, -, -, -, -, hrest⟩ := hwithin
    intro a ha
    rcases List.mem_cons.mp ha with rfl | ha
    · exact (isWithinTag_unquoted_iff hunquoted).mp hkeyWithin
    · exact ih hrest (fun a ha => hkeys a (List.mem_cons_of_mem _ ha)) a ha

/-! ### Rows in their usual spelling -/

theorem Attribute.render_eq (a : Attribute) :
    a.render = [' '] ++ (a.key ++ ('=' :: '"' :: (a.value ++ ['"']))) := by
  have h : a.render = ' ' :: a.key ++ "=\"".toList ++ a.value ++ "\"".toList := rfl
  simpa using h

def Attribute.Plain (a : Attribute) : Prop :=
  (∀ c ∈ a.key, isQuote c = false) ∧ '"' ∉ a.value

instance (a : Attribute) : Decidable a.Plain :=
  @instDecidableAnd _ _ (List.decidableBAll (fun c => isQuote c = false) a.key) inferInstance

/-- An attribute whose usual spelling leaves the tag that it stands in whole. -/
structure Attribute.Legible (a : Attribute) : Prop where
  plain : a.Plain
  bracket : '>' ∉ a.key

instance (a : Attribute) : Decidable a.Legible :=
  decidable_of_iff (a.Plain ∧ '>' ∉ a.key) ⟨fun h => ⟨h.1, h.2⟩, fun h => ⟨h.plain, h.bracket⟩⟩

theorem row_render {attributes : List Attribute} {seen : List (List Char)}
    (hkeys : ∀ a ∈ attributes, IsKey a.key) (hvalues : ∀ a ∈ attributes, '"' ∉ a.value)
    (hnodup : (seen ++ attributes.map Attribute.key).Nodup) :
    Row seen (attributes.flatMap Attribute.render) attributes := by
  induction attributes generalizing seen with
  | nil => exact .nil (by simp [IsBlank])
  | cons a attributes ih =>
    have hnew : a.key ∉ seen := by
      intro hmem
      exact (List.nodup_append.mp hnodup).2.2 a.key hmem a.key (by simp) rfl
    have hrest : Row (seen ++ [a.key]) (attributes.flatMap Attribute.render) attributes := by
      refine ih ?_ ?_ (by simpa using hnodup)
      · exact fun b hb => hkeys b (List.mem_cons_of_mem a hb)
      · exact fun b hb => hvalues b (List.mem_cons_of_mem a hb)
    have hspace : IsBlank [' '] := by simp [IsBlank, isSpace]
    have hnone : IsBlank [] := by simp [IsBlank]
    have hquote : isQuote '"' = true := rfl
    have hrow := Row.cons hspace (hkeys a List.mem_cons_self) hnew hnone hnone hquote
      (hvalues a List.mem_cons_self) hrest
    simpa [Attribute.render_eq] using hrow

theorem begins_render {a : Attribute} (hkey : IsKey a.key) (hvalue : '"' ∉ a.value)
    (rest : List Char) : Begins a rest (a.render ++ rest) := by
  have hspace : IsBlank [' '] := by simp [IsBlank, isSpace]
  have hnone : IsBlank [] := by simp [IsBlank]
  have hquote : isQuote '"' = true := rfl
  have hbegins : Begins a rest _ := .intro hspace hkey hnone hnone hquote hvalue
  simpa [Attribute.render_eq] using hbegins

/-- A text that can stand for a key: it is not empty and has no white space in it. -/
def IsWord (cs : List Char) : Prop :=
  cs ≠ [] ∧ ∀ c ∈ cs, isSpace c = false

instance (cs : List Char) : Decidable (IsWord cs) :=
  @instDecidableAnd _ _ inferInstance (List.decidableBAll (fun c => isSpace c = false) cs)

/-- An attribute whose key holds an equals sign after its first character is not read from
its usual spelling: its key ends before that sign, and no value stands behind it. -/
theorem isKey_of_reads {a : Attribute} {rest cs : List Char} {start : Nat} {next : Char}
    {key value : Part} (hkey : IsWord a.key) (hplain : a.Plain)
    (hskip : skipSpace 0 (a.render ++ rest) = (start, next :: cs))
    (hreadKey : readKey start next cs = .ok key)
    (hreadValue : readValue key.position key.rest = .ok value) : IsKey a.key := by
  obtain ⟨name, content⟩ := a
  obtain ⟨hne, hspace⟩ := hkey
  obtain ⟨hunquoted, -⟩ := hplain
  obtain ⟨first, more, rfl⟩ := List.exists_cons_of_ne_nil hne
  rw [List.forall_mem_cons] at hspace hunquoted
  obtain ⟨hfirst, hmore⟩ := hspace
  refine ⟨hfirst, ?_⟩
  rcases exists_split_or_notMem '=' more with ⟨front, back, hfront, rfl⟩ | hnot
  · exfalso
    have hblank : IsBlank [' '] := by simp [IsBlank, isSpace]
    have hnone : IsBlank [] := by simp [IsBlank]
    have hfrontKey : ∀ c ∈ front, endsKey c = false := by
      intro c hc
      have hne : c ≠ '=' := fun heq => hfront (heq ▸ hc)
      simp [endsKey, hne, hmore c (List.mem_append_left _ hc)]
    have htext : (⟨first :: (front ++ '=' :: back), content⟩ : Attribute).render ++ rest =
        [' '] ++ first :: (front ++ ([] ++ '=' ::
          (back ++ '=' :: '"' :: (content ++ '"' :: rest)))) := by
      simp [Attribute.render_eq]
    rw [htext, skipSpace_append hblank hfirst, Prod.mk.injEq, List.cons.injEq] at hskip
    obtain ⟨rfl, rfl, rfl⟩ := hskip
    obtain ⟨after, hread⟩ := readKey_append first hfrontKey hnone (0 + byteLength [' '])
      (back ++ '=' :: '"' :: (content ++ '"' :: rest))
    rw [hread, Except.ok.injEq] at hreadKey
    subst hreadKey
    cases back with
    | nil => exact absurd (isQuote_of_readValue rfl hreadValue) (by decide)
    | cons c back =>
      have hquote := isQuote_of_readValue (hmore c (by simp)) hreadValue
      rw [hunquoted.2 c (by simp)] at hquote
      cases hquote
  · intro c hc
    have hne : c ≠ '=' := fun heq => hnot (heq ▸ hc)
    simp [endsKey, hne, hmore c hc]

/-- When anything is read from the usual spelling of an attribute, its key is one that can
be read. -/
theorem Begins.isKey_of_render {a b : Attribute} {rest rest' : List Char} (hkey : IsWord a.key)
    (hplain : a.Plain) (h : Begins b rest' (a.render ++ rest)) : IsKey a.key := by
  obtain ⟨_, _, _, _, _, hskip, hreadKey, hreadValue, -⟩ := h.reads 0
  exact isKey_of_reads hkey hplain hskip hreadKey hreadValue

/-- A row in its usual spelling is a row of the attributes it was written for, and of no
others. -/
theorem Row.eq_of_render {seen : List (List Char)} {attributes parsed : List Attribute}
    (hkeys : ∀ a ∈ attributes, IsWord a.key) (hplain : ∀ a ∈ attributes, a.Plain)
    (h : Row seen (attributes.flatMap Attribute.render) parsed) : parsed = attributes := by
  induction attributes generalizing seen parsed with
  | nil =>
    generalize hcs : List.flatMap Attribute.render [] = cs at h
    cases h with
    | nil => rfl
    | cons => simp at hcs
  | cons a attributes ih =>
    rw [List.forall_mem_cons] at hkeys hplain
    rw [List.flatMap_cons] at h
    generalize hcs : a.render ++ attributes.flatMap Attribute.render = cs at h
    cases h with
    | nil hblank =>
      have hequals : '=' ∈ cs := by
        rw [← hcs, Attribute.render_eq]
        simp
      exact absurd (hblank '=' hequals) (by decide)
    | @cons _ _ key _ _ value rest quote _ hb₁ hkey _ hb₂ hb₃ hquote hvalue hrest =>
      have hread : Begins ⟨key, value⟩ rest _ := .intro hb₁ hkey hb₂ hb₃ hquote hvalue
      rw [← hcs] at hread
      have hbegins := begins_render (hread.isKey_of_render hkeys.1 hplain.1) hplain.1.2
        (attributes.flatMap Attribute.render)
      obtain ⟨rfl, rfl⟩ := hbegins.unique hread
      rw [ih hkeys.2 hplain.2 hrest]

theorem Attribute.Legible.isWholeTag {a : Attribute} (h : a.Legible) : IsWholeTag a.render := by
  have hspace : IsWholeTag [' '] := ⟨rfl, rfl⟩
  have hequals : IsWholeTag ['='] := ⟨rfl, rfl⟩
  obtain ⟨⟨hunquoted, hvalue⟩, hbracket⟩ := h
  have hkey := isWholeTag_unquoted hunquoted hbracket
  rw [Attribute.render_eq]
  exact hspace.append (hkey.append (hequals.append (isWholeTag_quoted rfl hvalue)))

theorem isWholeTag_render {attributes : List Attribute} (h : ∀ a ∈ attributes, a.Legible) :
    IsWholeTag (attributes.flatMap Attribute.render) := by
  induction attributes with
  | nil => exact ⟨rfl, rfl⟩
  | cons a attributes ih =>
    rw [List.forall_mem_cons] at h
    rw [List.flatMap_cons]
    exact h.1.isWholeTag.append (ih h.2)

/-! ### Tags in their usual spelling -/

theorem getLast?_render {attributes : List Attribute} (h : attributes ≠ []) :
    (attributes.flatMap Attribute.render).getLast? = some '"' := by
  rcases List.eq_nil_or_concat attributes with rfl | ⟨front, a, rfl⟩
  · exact absurd rfl h
  · have hlast : (front ++ [a]).flatMap Attribute.render = front.flatMap Attribute.render ++
        ' ' :: (a.key ++ '=' :: '"' :: a.value) ++ ['"'] := by simp [Attribute.render_eq]
    rw [List.concat_eq_append, hlast, List.getLast?_concat]

theorem name_append {name rest : List Char} (hname : ∀ c ∈ name, isSpace c = false)
    (hrest : ∀ c ∈ rest.head?, isSpace c = true) :
    (⟨name ++ rest⟩ : Tag).name = name ∧ (⟨name ++ rest⟩ : Tag).attributeText = rest := by
  have hall : ∀ c ∈ name, (!isSpace c) = true := by
    intro c hc
    rw [hname c hc]
    rfl
  unfold Tag.name Tag.attributeText
  cases rest with
  | nil =>
    rw [List.append_nil]
    exact ⟨List.takeWhile_eq_self_iff.mpr hall, List.dropWhile_eq_nil_iff.mpr hall⟩
  | cons c rest =>
    have hc : (!isSpace c) = false := by
      rw [hrest c rfl]
      rfl
    exact ⟨takeWhile_append_stop hall hc rest, dropWhile_append_stop hall hc rest⟩

theorem head?_render {attributes : List Attribute} :
    ∀ c ∈ (attributes.flatMap Attribute.render).head?, isSpace c = true := by
  intro c hc
  cases attributes with
  | nil => cases hc
  | cons a attributes =>
    rw [List.flatMap_cons, Attribute.render_eq] at hc
    obtain rfl : ' ' = c := by simpa using hc
    rfl

section

variable {name : List Char} {attributes : List Attribute}

theorem Tag.name_ofAttributes (hname : ∀ c ∈ name, isSpace c = false) :
    (Tag.ofAttributes name attributes).name = name :=
  (name_append hname head?_render).1

theorem Tag.attributeText_ofAttributes (hname : ∀ c ∈ name, isSpace c = false) :
    (Tag.ofAttributes name attributes).attributeText = attributes.flatMap Attribute.render :=
  (name_append hname head?_render).2

theorem Tag.attributes_ofAttributes (hname : ∀ c ∈ name, isSpace c = false)
    (hkeys : ∀ a ∈ attributes, IsKey a.key) (hvalues : ∀ a ∈ attributes, '"' ∉ a.value)
    (hnodup : (attributes.map Attribute.key).Nodup) :
    (Tag.ofAttributes name attributes).attributes = ⟨attributes, none⟩ := by
  rw [Tag.attributes, Tag.attributeText_ofAttributes hname, AttributeList.readFrom_eq_iff]
  exact row_render hkeys hvalues (by simpa using hnodup)

end

end Markup
end FirmwareTests
