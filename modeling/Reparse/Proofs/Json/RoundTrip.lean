import Reparse.Json.Reader
import Reparse.Proofs.Json.Lexer

/-!
Writing and reading. Main statement: a value whose strings have texts is read back from the text
that is written for it, so the text determines the value. No control character stands in the text,
so it is a single line.
-/

namespace Reparse.Json

/-- Where a value may begin, the tokens put this one in its place. -/
def Delivers (ts : List Token) (v : Json) : Prop :=
  ∀ expect stack result, expect = .value ∨ expect = .valueOrClose →
    Leads Reader.step ⟨expect, stack, result⟩ ts (Reader.put v result stack)

theorem delivers_value (v : Json) : Delivers [.value v] v := by
  rintro expect stack result (rfl | rfl) <;> rfl

/-! ## Containers -/

/-- The items behind those of an open array, and its end. -/
theorem leads_itemTokens {items : List Json} (h : ∀ v ∈ items, Delivers (tokens v) v)
    {expect : Expect} (hexpect : expect = .valueOrClose ∨ items ≠ [] ∧ expect = .value)
    (before : List Json) (stack : List Frame) (result : Option Json) :
    Leads Reader.step ⟨expect, .array before :: stack, result⟩ (itemTokens items ++ [.closeArray])
      (Reader.put (.array (before.reverse ++ items)) result stack) := by
  induction items generalizing expect before with
  | nil =>
    obtain rfl := hexpect.resolve_right fun h => h.1 rfl
    rw [List.append_nil]
    rfl
  | cons v items ih =>
    obtain ⟨hv, hitems⟩ := List.forall_mem_cons.1 h
    have hvalue := hv expect (.array before :: stack) result (hexpect.symm.imp And.right id)
    have hbefore : before.reverse ++ v :: items = (v :: before).reverse ++ items := by simp
    rw [hbefore]
    cases items with
    | nil =>
      rw [List.append_nil]
      exact hvalue.append (.cons rfl rfl)
    | cons w rest =>
      have hrest := ih hitems (.inr ⟨List.cons_ne_nil w rest, rfl⟩) (v :: before)
      rw [itemTokens, List.append_assoc]
      exact hvalue.append (.cons rfl hrest)

/-- The members behind those of an open object, and its end. -/
theorem leads_memberTokens {members : List (Option String × Json)}
    (h : ∀ m ∈ members, Delivers (tokens m.2) m.2) {expect : Expect}
    (hexpect : expect = .keyOrClose ∨ members ≠ [] ∧ expect = .key)
    (before : List (Option String × Json)) (key : Option String) (stack : List Frame)
    (result : Option Json) :
    Leads Reader.step ⟨expect, .object before key :: stack, result⟩
      (memberTokens members ++ [.closeObject])
      (Reader.put (.object (before.reverse ++ members)) result stack) := by
  induction members generalizing expect before key with
  | nil =>
    obtain rfl := hexpect.resolve_right fun h => h.1 rfl
    rw [List.append_nil]
    rfl
  | cons m members ih =>
    obtain ⟨hm, hmembers⟩ := List.forall_mem_cons.1 h
    have hbegin : Leads Reader.step ⟨expect, .object before key :: stack, result⟩
        [.value (.string m.1), .colon] ⟨.value, .object before m.1 :: stack, result⟩ := by
      rcases hexpect with rfl | ⟨-, rfl⟩ <;> rfl
    have hmember := hbegin.append (hm .value (.object before m.1 :: stack) result (.inl rfl))
    have hbefore : before.reverse ++ m :: members = (m :: before).reverse ++ members := by simp
    rw [hbefore]
    cases members with
    | nil =>
      rw [List.append_nil]
      exact hmember.append (.cons rfl rfl)
    | cons m' rest =>
      have hrest := ih hmembers (.inr ⟨List.cons_ne_nil m' rest, rfl⟩) (m :: before) none
      have htokens : memberTokens (m :: m' :: rest) ++ [.closeObject] =
          [.value (.string m.1), .colon] ++ tokens m.2 ++
            .comma :: (memberTokens (m' :: rest) ++ [.closeObject]) := by
        simp [memberTokens]
      rw [htokens]
      exact hmember.append (.cons rfl hrest)

/-- The tokens of a value are read as the value. -/
theorem Proper.delivers {v : Json} (h : Proper v) : Delivers (tokens v) v := by
  induction h with
  | null => exact delivers_value _
  | bool b => exact delivers_value _
  | integer n => exact delivers_value _
  | numeral _ => exact delivers_value _
  | text s => exact delivers_value _
  | array _ ih =>
    rintro expect stack result hexpect
    refine .cons ?_ (leads_itemTokens ih (.inl rfl) [] stack result)
    rcases hexpect with rfl | rfl <;> rfl
  | object _ _ ih =>
    rintro expect stack result hexpect
    refine .cons ?_ (leads_memberTokens ih (.inl rfl) [] none stack result)
    rcases hexpect with rfl | rfl <;> rfl

/-- What is written is read back. -/
theorem Proper.parse?_render {v : Json} (h : Proper v) : parse? (render v) = some v := by
  have hread : (tokens v).foldlM Reader.step .initial = some (Reader.put v none []) :=
    h.delivers .value [] none (.inl rfl)
  rw [parse?, h.tokens?_render, Option.bind_some, hread]
  rfl

theorem Proper.parse?_toText {v : Json} (h : Proper v) : parse? v.toText.toList = some v := by
  rw [toText, String.toList_ofList]
  exact h.parse?_render

/-- Different values are written in different ways. -/
theorem Proper.eq_of_toText {v w : Json} (hv : Proper v) (hw : Proper w)
    (h : v.toText = w.toText) : v = w := by
  have hread := hv.parse?_toText
  rw [h, hw.parse?_toText] at hread
  exact (Option.some.inj hread).symm

theorem Proper.ofMembers {members : List (String × Json)} (h : ∀ m ∈ members, Proper m.2) :
    Proper (.ofMembers members) :=
  .object (List.forall_mem_map.2 fun _ _ => rfl) (List.forall_mem_map.2 h)

theorem ofMembers_inj {members members' : List (String × Json)} :
    ofMembers members = ofMembers members' ↔ members = members' := by
  refine ⟨fun h => ?_, congrArg ofMembers⟩
  refine List.map_injective_iff.2 ?_ (Json.object.inj h)
  rintro ⟨key, v⟩ ⟨key', v'⟩ heq
  cases heq
  rfl

/-! ## A single line -/

theorem le_toNat_of_all {cs : List Char} (h : cs.all (0x20 ≤ ·.toNat) = true) :
    ∀ c ∈ cs, 0x20 ≤ c.toNat := by
  simpa using h

theorem le_toNat_of_mem_escaped (c : Char) : ∀ d ∈ escaped c, 0x20 ≤ d.toNat := by
  have hhex : ∀ n < 16, 0x20 ≤ (hexDigit n).toNat := by decide
  unfold escaped
  split
  iterate 7 exact le_toNat_of_all rfl
  split
  · rename_i hlow
    simp only [List.forall_mem_cons]
    refine ⟨by decide, by decide, by decide, by decide, hhex _ ?_, hhex _ ?_, nofun⟩ <;> omega
  · rename_i hlow
    rw [List.forall_mem_singleton]
    omega

theorem le_toNat_of_mem_quoted (s : String) : ∀ c ∈ quoted s, 0x20 ≤ c.toNat := by
  refine List.forall_mem_append.2 ⟨List.forall_mem_cons.2 ⟨by decide, ?_⟩, le_toNat_of_all rfl⟩
  intro c hc
  obtain ⟨d, -, hd⟩ := List.mem_flatMap.1 hc
  exact le_toNat_of_mem_escaped d c hd

theorem le_toNat_of_mem_number {chars : List Char} {v : Json} (h : numberValue? chars = some v)
    {c : Char} (hc : c ∈ chars) : 0x20 ≤ c.toNat := by
  have hdigit : ∀ {d : Char}, d.isDigit = true → 0x20 ≤ d.toNat := fun hd =>
    Nat.le_trans (by decide) (Char.isDigit_iff_toNat.1 hd).1
  obtain ⟨first, cs, rfl, hfirst, hcs⟩ := exists_cons_of_numberValue? h
  rcases List.mem_cons.1 hc with rfl | hc
  · rcases hfirst with rfl | hfirst
    · decide
    · exact hdigit hfirst
  · have hnumber := hcs c hc
    simp only [isNumberChar, Bool.or_eq_true, beq_iff_eq] at hnumber
    rcases hnumber with ((((hnumber | rfl) | rfl) | rfl) | rfl) | rfl
    · exact hdigit hnumber
    all_goals decide

theorem le_toNat_of_mem_renderItems {items : List Json}
    (h : ∀ v ∈ items, ∀ c ∈ render v, 0x20 ≤ c.toNat) :
    ∀ c ∈ renderItems items, 0x20 ≤ c.toNat := by
  induction items with
  | nil => exact nofun
  | cons v items ih =>
    obtain ⟨hv, hitems⟩ := List.forall_mem_cons.1 h
    cases items with
    | nil => exact hv
    | cons w rest =>
      exact List.forall_mem_append.2 ⟨hv, List.forall_mem_cons.2 ⟨by decide, ih hitems⟩⟩

theorem le_toNat_of_mem_renderMembers {members : List (Option String × Json)}
    (h : ∀ m ∈ members, ∀ c ∈ render m.2, 0x20 ≤ c.toNat) :
    ∀ c ∈ renderMembers members, 0x20 ≤ c.toNat := by
  induction members with
  | nil => exact nofun
  | cons m members ih =>
    obtain ⟨hm, hmembers⟩ := List.forall_mem_cons.1 h
    have hmember : ∀ c ∈ quoted (m.1.getD "") ++ ':' :: render m.2, 0x20 ≤ c.toNat :=
      List.forall_mem_append.2
        ⟨le_toNat_of_mem_quoted _, List.forall_mem_cons.2 ⟨by decide, hm⟩⟩
    cases members with
    | nil => exact hmember
    | cons m' rest =>
      exact List.forall_mem_append.2 ⟨hmember, List.forall_mem_cons.2 ⟨by decide, ih hmembers⟩⟩

/-- No control character is written, so no line ends in what is written. -/
theorem Proper.le_toNat_of_mem_render {v : Json} (h : Proper v) :
    ∀ c ∈ render v, 0x20 ≤ c.toNat := by
  induction h with
  | null => exact le_toNat_of_all rfl
  | bool b => cases b <;> exact le_toNat_of_all rfl
  | integer n => exact fun _ => le_toNat_of_mem_number (numberValue?_signedDigits n)
  | numeral hvalue => exact fun _ => le_toNat_of_mem_number hvalue
  | text s => exact le_toNat_of_mem_quoted s
  | array _ ih =>
    refine List.forall_mem_append.2 ⟨List.forall_mem_cons.2 ⟨by decide, ?_⟩, le_toNat_of_all rfl⟩
    exact le_toNat_of_mem_renderItems ih
  | object _ _ ih =>
    refine List.forall_mem_append.2 ⟨List.forall_mem_cons.2 ⟨by decide, ?_⟩, le_toNat_of_all rfl⟩
    exact le_toNat_of_mem_renderMembers ih

end Reparse.Json
