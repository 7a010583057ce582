import FirmwareTests.Proofs.Octets.Attributes
import FirmwareTests.Proofs.Octets.Documents
import FirmwareTests.Proofs.Reports.Retitler
import FirmwareTests.Proofs.Text.Decoding

/-!
# Retitling bytes

A pass over the bytes of a document that retitles its root and holds the bytes that it has
written. What it holds at the end is the bytes of the retitled document, so that nothing is
replaced when they are decoded; nor is anything in a CDATA section.
-/

namespace FirmwareTests
namespace Octets

open Markup (Ending)
open Reports (RetitleError rootName titleKey)
open Text

/-! ### Writing bytes -/

def Token.render : Token → List UInt8
  | text raw => raw
  | start tag => bytes "<".toList ++ tag ++ bytes ">".toList
  | empty tag => bytes "<".toList ++ tag ++ bytes "/>".toList
  | close tag => bytes "</".toList ++ endTagName tag ++ bytes ">".toList
  | cdata raw => bytes "<![CDATA[".toList ++ raw ++ bytes "]]>".toList
  | comment raw => bytes "<!--".toList ++ raw ++ bytes "-->".toList
  | instruction raw => bytes "<?".toList ++ raw ++ bytes "?>".toList
  | doctype raw => bytes "<!DOCTYPE ".toList ++ raw ++ bytes ">".toList

def Attribute.render (a : Attribute) : List UInt8 :=
  ' '.toUInt8 :: a.key ++ bytes "=\"".toList ++ a.value ++ bytes "\"".toList

/-- The entity of a byte, if it has one, or the byte itself. -/
def escapeByte (b : UInt8) : List UInt8 :=
  if b = '<'.toUInt8 then bytes "&lt;".toList
  else if b = '>'.toUInt8 then bytes "&gt;".toList
  else if b = '\''.toUInt8 then bytes "&apos;".toList
  else if b = '&'.toUInt8 then bytes "&amp;".toList
  else if b = '"'.toUInt8 then bytes "&quot;".toList
  else [b]

def escape (bs : List UInt8) : List UInt8 :=
  bs.flatMap escapeByte

/-- Attributes with the given title: in the place of the one there was, or last. -/
def retitledAttributes (title : List UInt8) (attributes : List Attribute) : List Attribute :=
  let new : Attribute := ⟨bytes titleKey, escape title⟩
  if attributes.any fun a => a.key == bytes titleKey then
    attributes.map fun a => if a.key = bytes titleKey then new else a
  else attributes ++ [new]

/-- The bytes of the tag of a root with the given title. -/
def retitledTag (title text : List UInt8) (position : Nat) : Except RetitleError (List UInt8) :=
  if tagName text = bytes rootName then
    match (attributes text).fault with
    | some fault => .error (.malformed ⟨position, .badAttribute fault⟩)
    | none =>
      .ok (bytes rootName ++
        (retitledAttributes title (attributes text).attributes).flatMap Attribute.render)
  else .error (.wrongRoot (ofBytesLenient (tagName text)))

/-- What a pass has done so far: whether the root has come, the number of open elements, and
the bytes that its writer holds. -/
structure Retitler where
  seenRoot : Bool
  depth : Nat
  held : List UInt8
  deriving DecidableEq

namespace Retitler

def initial : Retitler :=
  ⟨false, 0, []⟩

def write (r : Retitler) (depth : Nat) (t : Token) : Retitler :=
  { r with depth := depth, held := r.held ++ t.render }

/-- Takes in a token. The first tag is that of the root. -/
def step (title : List UInt8) (r : Retitler) (t : Located) : Except RetitleError Retitler :=
  match t.token with
  | .start text =>
    if r.seenRoot then .ok (r.write (r.depth + 1) t.token)
    else do
      let new ← retitledTag title text t.position
      return { r.write (r.depth + 1) (.start new) with seenRoot := true }
  | .empty text =>
    if r.seenRoot then .ok (r.write r.depth t.token)
    else do
      let new ← retitledTag title text t.position
      return { r.write r.depth (.empty new) with seenRoot := true }
  | .close _ => .ok (r.write (r.depth - 1) t.token)
  | _ => .ok (r.write r.depth t.token)

def finish (r : Retitler) : Ending → Except RetitleError (List UInt8)
  | .broken fault => .error (.malformed fault)
  | .complete =>
    if r.depth = 0 then
      if r.seenRoot then .ok r.held else .error .noRoot
    else .error (.unclosed r.depth)

end Retitler

/-- The bytes that are held when the root of a document has been given a new title. -/
def retitle (title document : List UInt8) : Except RetitleError (List UInt8) := do
  let reading := read document
  let r ← reading.tokens.foldlM (Retitler.step title) .initial
  r.finish reading.ending

/-! ### What is written -/

theorem bytes_between (front cs back : List Char) :
    bytes (front ++ cs ++ back) = bytes front ++ bytes cs ++ bytes back := by
  rw [bytes_append, bytes_append]

theorem render_of (t : Markup.Token) : (Token.of t).render = bytes t.render := by
  cases t with
  | text raw => rfl
  | close tag =>
    refine Eq.trans ?_ (bytes_between _ tag.name _).symm
    rw [← endTagName_bytes]
    rfl
  | _ => exact (bytes_between _ _ _).symm

theorem render_attribute_of (a : Markup.Attribute) :
    (Attribute.of a).render = bytes a.render := by
  rw [Markup.Attribute.render, bytes_append, bytes_append, bytes_append,
    bytes_cons_of_isOctet (by decide)]
  rfl

/-- A byte that belongs to a character without an entity has none either. -/
theorem escapeByte_of_mem {c : Char} {b : UInt8} (hb : b ∈ String.utf8EncodeChar c)
    (hc : c ∉ ['<', '>', '\'', '&', '"']) : escapeByte b = [b] := by
  simp only [List.mem_cons, List.not_mem_nil, or_false, not_or] at hc
  obtain ⟨hless, hgreater, happostrophe, hampersand, hquote⟩ := hc
  rw [escapeByte, if_neg (mt (eq_toUInt8_iff (by decide) hb).mp hless),
    if_neg (mt (eq_toUInt8_iff (by decide) hb).mp hgreater),
    if_neg (mt (eq_toUInt8_iff (by decide) hb).mp happostrophe),
    if_neg (mt (eq_toUInt8_iff (by decide) hb).mp hampersand),
    if_neg (mt (eq_toUInt8_iff (by decide) hb).mp hquote)]

theorem escape_utf8EncodeChar (c : Char) :
    escape (String.utf8EncodeChar c) = bytes (Markup.escapeChar c) := by
  by_cases hc : c ∈ ['<', '>', '\'', '&', '"']
  · simp only [List.mem_cons, List.not_mem_nil, or_false] at hc
    rcases hc with rfl | rfl | rfl | rfl | rfl <;> decide
  · have hself : ∀ bs : List UInt8, (∀ b ∈ bs, escapeByte b = [b]) → escape bs = bs := by
      intro bs h
      rw [escape, List.flatMap_congr h, List.flatMap_singleton']
    rw [Markup.escapeChar_eq_self hc, bytes_cons, bytes_nil, List.append_nil]
    exact hself _ fun b hb => escapeByte_of_mem hb hc

theorem escape_bytes (cs : List Char) : escape (bytes cs) = bytes (Markup.escape cs) := by
  induction cs with
  | nil => rfl
  | cons c cs ih =>
    have happend : escape (String.utf8EncodeChar c ++ bytes cs) =
        escape (String.utf8EncodeChar c) ++ escape (bytes cs) := List.flatMap_append
    rw [bytes_cons, happend, escape_utf8EncodeChar, ih, Markup.escape_cons, bytes_append]

theorem retitledAttributes_of (title : List Char) (attributes : List Markup.Attribute) :
    retitledAttributes (bytes title) (attributes.map Attribute.of) =
      (Reports.retitledAttributes title attributes).map Attribute.of := by
  have hkey : ∀ a : Markup.Attribute, (Attribute.of a).key = bytes titleKey ↔ a.key = titleKey :=
    fun a => bytes_injective.eq_iff
  have hnew : (⟨bytes titleKey, escape (bytes title)⟩ : Attribute) =
      .of ⟨titleKey, Markup.escape title⟩ := by
    rw [escape_bytes]
    rfl
  have hany : (attributes.map Attribute.of).any (fun a => a.key == bytes titleKey) =
      attributes.any fun a => a.key == titleKey := by
    rw [List.any_map]
    congr 1
    funext a
    rw [Bool.eq_iff_iff, beq_iff_eq]
    exact (beq_iff_eq.trans (hkey a))
  rw [retitledAttributes, Reports.retitledAttributes, hnew, hany]
  split
  · rw [List.map_map, List.map_map]
    congr 1
    funext a
    simp only [Function.comp_apply, hkey]
    split <;> rfl
  · rw [List.map_append]
    rfl

theorem flatMap_render_of (attributes : List Markup.Attribute) :
    (attributes.map Attribute.of).flatMap Attribute.render =
      bytes (attributes.flatMap Markup.Attribute.render) := by
  rw [List.flatMap_map, bytes, List.flatMap_assoc]
  exact List.flatMap_congr fun a _ => render_attribute_of a

theorem retitledTag_of (title : List Char) (tag : Markup.Tag) (position : Nat) :
    retitledTag (bytes title) (bytes tag.text) position =
      (Reports.retitledTag title tag position).map fun new => bytes new.text := by
  rw [retitledTag, Reports.retitledTag, tagName_bytes, attributes_bytes, ofBytesLenient_bytes]
  by_cases hname : tag.name = rootName
  · rw [if_pos hname, if_pos (congrArg bytes hname), Markup.AttributeList.all, AttributeList.of]
    dsimp only
    cases tag.attributes.fault with
    | some fault => rfl
    | none =>
      dsimp only
      rw [retitledAttributes_of, flatMap_render_of, ← bytes_append]
      rfl
  · rw [if_neg hname, if_neg (mt (fun h => bytes_injective h) hname)]
    rfl

/-! ### The pass -/

namespace Retitler

def of (r : Reports.Retitler) : Retitler :=
  ⟨r.seenRoot, r.depth, bytes (Markup.render r.written)⟩

theorem write_of (r : Reports.Retitler) (t : Markup.Token) :
    (of r).write (t.depthAfter r.depth) (.of t) = of (r.write t) := by
  have hheld : bytes (Markup.render (r.written ++ [t])) =
      bytes (Markup.render r.written) ++ (Token.of t).render := by
    rw [Markup.render_append, bytes_append, Markup.render_cons, Markup.render_nil,
      List.append_nil, render_of]
  simp only [write, of, Reports.Retitler.write, hheld]

theorem write_root_of (r : Reports.Retitler) (t : Markup.Token) :
    { (of r).write (t.depthAfter r.depth) (.of t) with seenRoot := true } =
      of { r.write t with seenRoot := true } := by
  rw [write_of]
  rfl

theorem step_of (title : List Char) (r : Reports.Retitler) (t : Markup.Located) :
    step (bytes title) (of r) (.of t) = (r.step title t).map of := by
  obtain ⟨token, position⟩ := t
  have hwrite : (.ok ((of r).write (token.depthAfter r.depth) (.of token)) :
      Except RetitleError Retitler) = .ok (of (r.write token)) :=
    congrArg Except.ok (write_of r token)
  cases token with
  | start tag =>
    by_cases hseen : r.seenRoot = true
    · rw [Reports.Retitler.step_of_seenRoot hseen]
      exact (if_pos hseen).trans hwrite
    · rw [Reports.Retitler.step_root (Bool.eq_false_iff.mpr hseen) rfl]
      refine (if_neg hseen).trans ?_
      dsimp only [Located.of]
      rw [retitledTag_of]
      cases Reports.retitledTag title tag position with
      | error error => rfl
      | ok new => exact congrArg Except.ok (write_root_of r (.start new))
  | empty tag =>
    by_cases hseen : r.seenRoot = true
    · rw [Reports.Retitler.step_of_seenRoot hseen]
      exact (if_pos hseen).trans hwrite
    · rw [Reports.Retitler.step_root (Bool.eq_false_iff.mpr hseen) rfl]
      refine (if_neg hseen).trans ?_
      dsimp only [Located.of]
      rw [retitledTag_of]
      cases Reports.retitledTag title tag position with
      | error error => rfl
      | ok new => exact congrArg Except.ok (write_root_of r (.empty new))
  | _ =>
    rw [Reports.Retitler.step_of_tagless r rfl]
    exact hwrite

theorem foldlM_step_of (title : List Char) (ts : List Markup.Located) (r : Reports.Retitler) :
    (ts.map Located.of).foldlM (step (bytes title)) (of r) =
      (ts.foldlM (Reports.Retitler.step title) r).map of := by
  induction ts generalizing r with
  | nil => rfl
  | cons t ts ih =>
    rw [List.map_cons, List.foldlM_cons, List.foldlM_cons, step_of]
    cases r.step title t with
    | error error => rfl
    | ok next => exact ih next

theorem finish_of (r : Reports.Retitler) (ending : Ending) :
    (of r).finish ending = (r.finish ending).map bytes := by
  cases ending with
  | broken fault => rfl
  | complete =>
    by_cases hdepth : r.depth = 0
    · refine (if_pos hdepth).trans ?_
      rw [Reports.Retitler.finish, if_pos hdepth]
      cases hseen : r.seenRoot <;> simp only [of, hseen] <;> rfl
    · refine (if_neg hdepth).trans ?_
      rw [Reports.Retitler.finish, if_neg hdepth]
      rfl

end Retitler

theorem retitle_bytes (title document : List Char) :
    retitle (bytes title) (bytes document) = (Reports.retitle title document).map bytes := by
  have hpass := Retitler.foldlM_step_of title (Markup.read document).tokens .initial
  have hinitial : Retitler.of .initial = .initial := rfl
  rw [hinitial] at hpass
  rw [retitle, read_bytes, Reports.retitle, Reports.retitleReading_eq_foldlM]
  simp only [Reading.of, hpass]
  cases (Markup.read document).tokens.foldlM (Reports.Retitler.step title) .initial with
  | error error => rfl
  | ok r => exact Retitler.finish_of r (Markup.read document).ending

/-! ### Decoding -/

/-- A token whose bytes are decoded. What stands in a CDATA section is decoded leniently, and
anything else strictly. -/
def Token.decode? : Token → Option Markup.Token
  | text raw => (ofBytes? raw).map .text
  | start tag => (ofBytes? tag).map fun cs => .start ⟨cs⟩
  | empty tag => (ofBytes? tag).map fun cs => .empty ⟨cs⟩
  | close tag => (ofBytes? tag).map fun cs => .close ⟨cs⟩
  | cdata raw => some (.cdata (ofBytesLenient raw))
  | comment raw => (ofBytes? raw).map .comment
  | instruction raw => (ofBytes? raw).map .instruction
  | doctype raw => (ofBytes? raw).map .doctype

def Reading.decode? (r : Reading) : Option Markup.Reading := do
  let tokens ← r.tokens.mapM fun t => t.token.decode?.map fun token => ⟨token, t.position⟩
  return ⟨tokens, r.ending⟩

/-- The verdict on the bytes of a report, unless something in them cannot be decoded. -/
def parse? (document : List UInt8) : Option (Except Reports.ReportError Reports.Report) :=
  (read document).decode?.map Reports.Report.ofReading

theorem decode?_of (t : Markup.Token) : (Token.of t).decode? = some t := by
  cases t <;> simp only [Token.of, Token.decode?, ofBytes?_bytes, ofBytesLenient_bytes] <;> rfl

theorem decode?_reading_of (r : Markup.Reading) : (Reading.of r).decode? = some r := by
  obtain ⟨tokens, ending⟩ := r
  have htokens : (tokens.map Located.of).mapM (fun t : Located =>
      t.token.decode?.map fun token => (⟨token, t.position⟩ : Markup.Located)) = some tokens := by
    induction tokens with
    | nil => rfl
    | cons t ts ih =>
      rw [List.map_cons, List.mapM_cons, ih, Located.of, decode?_of]
      rfl
  rw [Reading.decode?, Reading.of, htokens]
  rfl

theorem whole_of_cdata {document : List Char} {t : Located} {raw : List UInt8}
    (ht : t ∈ (read (bytes document)).tokens) (hraw : t.token = .cdata raw) : Whole raw := by
  rw [read_bytes] at ht
  obtain ⟨⟨token, position⟩, -, rfl⟩ := List.mem_map.mp ht
  cases token with
  | cdata cs =>
    cases hraw
    exact whole_bytes cs
  | _ => cases hraw

/-- No character is cut apart by a reader that sees only the bytes of a document: what the
retitling pass holds at its end and what stands in a CDATA section is decoded as it is, and
reports are retitled and parsed as they are by characters. -/
theorem whole_characters (title document : List Char) :
    (retitle (bytes title) (bytes document)).map ofBytesLenient =
        Reports.retitle title document ∧
      (∀ held, retitle (bytes title) (bytes document) = .ok held → Whole held) ∧
      (∀ t ∈ (read (bytes document)).tokens, ∀ raw, t.token = .cdata raw → Whole raw) ∧
      parse? (bytes document) = some (Reports.Report.parse document) := by
  refine ⟨?_, ?_, fun t ht raw hraw => whole_of_cdata ht hraw, ?_⟩
  · rw [retitle_bytes]
    cases Reports.retitle title document with
    | error error => rfl
    | ok out => exact congrArg Except.ok (ofBytesLenient_bytes out)
  · intro held hheld
    rw [retitle_bytes] at hheld
    cases hout : Reports.retitle title document with
    | error error =>
      rw [hout] at hheld
      cases hheld
    | ok out =>
      rw [hout] at hheld
      cases hheld
      exact whole_bytes out
  · rw [parse?, read_bytes, decode?_reading_of]
    rfl

/-- A report with a byte order mark and characters of two, three and four bytes in its names,
values and texts. -/
def sampleDocument : List Char :=
  ("\uFEFF<!--é--><testsuite ñ='€' name=\"\"><testcase name=\"a.b.c\"><failure>é<![CDATA[😀]]>" ++
    "</failure></testcase><ü\n></ü></testsuite>").toList

def retitledSample : List Char :=
  ("<!--é--><testsuite ñ=\"€\" name=\"&lt;日\"><testcase name=\"a.b.c\"><failure>é<![CDATA[😀]]>" ++
    "</failure></testcase><ü\n></ü></testsuite>").toList

theorem whole_characters_sample :
    retitle (bytes "<日".toList) (bytes sampleDocument) = .ok (bytes retitledSample) ∧
      Whole (bytes retitledSample) ∧
      ∃ t ∈ (read (bytes sampleDocument)).tokens,
        t.token = .cdata (bytes "😀".toList) ∧ Whole (bytes "😀".toList) := by
  have hretitle : (retitle (bytes "<日".toList) (bytes sampleDocument)).toOption =
      some (bytes retitledSample) := by decide +kernel
  have hcdata : ∃ t ∈ (read (bytes sampleDocument)).tokens,
      t.token = .cdata (bytes "😀".toList) := by decide +kernel
  rw [Reports.toOption_eq_some_iff] at hretitle
  obtain ⟨t, ht, hraw⟩ := hcdata
  obtain ⟨-, hheld, hsections, -⟩ := whole_characters "<日".toList sampleDocument
  exact ⟨hretitle, hheld _ hretitle, t, ht, hraw, hsections t ht _ hraw⟩

end Octets
end FirmwareTests
