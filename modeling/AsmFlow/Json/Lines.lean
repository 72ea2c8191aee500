import AsmFlow.Json.Plan
import AsmFlow.Json.WellFormed

/-!
# A planned text is one line

The writer escapes every control byte of a string, so a line feed can only come
from a fragment of the caller's.
-/

namespace AsmFlow.Json

open Http Library Library.Json

section Clean

/-- A planned text stays on one line. -/
def Plan.Clean (p : Plan) : Prop := (10 : UInt8) ∉ p.pieces.flatten

theorem clean_andThen {p : Plan} {f : List Level → Bool → Plan} (hp : p.Clean)
    (hf : ∀ st d, (f st d).Clean) : (p.andThen f).Clean := by
  unfold Plan.andThen
  cases p.next with
  | none => exact hp
  | some s =>
    unfold Plan.Clean at hp ⊢
    rw [List.flatten_append, List.mem_append, not_or]
    exact ⟨hp, hf s.1 s.2⟩

theorem clean_refuse : Plan.refuse.Clean := List.not_mem_nil

theorem clean_nothing (next : Option (List Level × Bool)) : (Plan.mk [] next).Clean :=
  List.not_mem_nil

theorem lf_notMem_stringChar {t : Text} (h : StringChar t) : (10 : UInt8) ∉ t := by
  cases h with
  | char c hc hquote hslash =>
    intro hmem
    have hbytes := utf8EncodeChar_toNat c
    have hten : 10 ∈ (String.utf8EncodeChar c).map UInt8.toNat :=
      List.mem_map.mpr ⟨10, hmem, rfl⟩
    rw [hbytes] at hten
    split_ifs at hten <;> simp only [List.mem_cons, List.not_mem_nil, or_false] at hten <;> omega
  | escape b hb =>
    intro hmem
    simp only [List.mem_cons, List.not_mem_nil, or_false] at hb hmem
    rcases hmem with hmem | rfl
    · exact absurd hmem (by decide)
    · exact absurd hb (by decide)
  | unicode a b c d ha hb hc hd =>
    intro hmem
    have hten : ¬ IsHex 10 := by decide
    simp only [List.mem_cons, List.not_mem_nil, or_false] at hmem
    rcases hmem with hmem | hmem | rfl | rfl | rfl | rfl
    · exact absurd hmem (by decide)
    · exact absurd hmem (by decide)
    · exact hten ha
    · exact hten hb
    · exact hten hc
    · exact hten hd

theorem lf_notMem_stringText (s : Bytes) : (10 : UInt8) ∉ (Plan.stringText s).flatten := by
  obtain ⟨cs, hcs, hflatten⟩ := isString_pieces s
  rw [Plan.stringText, hflatten]
  intro hmem
  simp only [List.mem_cons, List.mem_append, List.mem_flatten, List.not_mem_nil, or_false] at hmem
  rcases hmem with hmem | ⟨c, hc, hmem⟩ | hmem
  · exact absurd hmem (by decide)
  · exact lf_notMem_stringChar (hcs c hc) hmem
  · exact absurd hmem (by decide)

theorem lf_notMem_decimal (n : ℕ) : (10 : UInt8) ∉ decimal n := by
  intro hmem
  have hdigit := (whole_decimal n).1.2 10 hmem
  exact absurd hdigit (by decide)

theorem lf_notMem_itemText (i : Item) : (10 : UInt8) ∉ (Plan.itemText i).flatten := by
  cases i with
  | stringN s => exact lf_notMem_stringText s
  | string s =>
    cases s with
    | none => decide
    | some s => exact lf_notMem_stringText s
  | uint value => simpa [Plan.itemText] using lf_notMem_decimal value.toNat
  | int value =>
    simp only [Plan.itemText]
    split_ifs <;> simp [lf_notMem_decimal]
  | bool value => cases value <;> decide
  | null => decide

theorem clean_prepareValue (st : List Level) (d : Bool) : (Plan.prepareValue st d).Clean := by
  unfold Plan.prepareValue
  cases st with
  | nil =>
    cases d with
    | true => exact clean_refuse
    | false => exact clean_nothing _
  | cons l rest =>
    dsimp only
    split_ifs
    · exact clean_andThen (by simp [Plan.Clean, Plan.puts]) fun _ _ => clean_nothing _
    · exact clean_andThen (by simp [Plan.Clean, Plan.puts]) fun _ _ => clean_nothing _
    · exact clean_nothing _
    · exact clean_refuse

theorem clean_value {text : List Bytes} (htext : (10 : UInt8) ∉ text.flatten) (st : List Level)
    (d : Bool) : (Plan.value text st d).Clean :=
  clean_andThen (clean_prepareValue st d) fun _ _ => htext

theorem clean_key (k : Bytes) (st : List Level) (d : Bool) : (Plan.key k st d).Clean := by
  unfold Plan.key
  cases st with
  | nil => exact clean_refuse
  | cons l rest =>
    have htail (st : List Level) (d : Bool) := clean_andThen
      (p := Plan.puts (Plan.stringText k) st d) (lf_notMem_stringText k) fun st d =>
        clean_andThen (p := Plan.puts [[0x3A]] st d)
          (f := fun st d =>
            ⟨[], some (st.modifyHead fun l => { l with hasItem := true, wantValue := true }, d)⟩)
          (by simp [Plan.Clean, Plan.puts]) fun _ _ => clean_nothing _
    dsimp only
    split_ifs
    · exact clean_refuse
    · exact clean_refuse
    · exact clean_andThen (by simp [Plan.Clean, Plan.puts]) htail
    · exact clean_andThen (by simp [Plan.Clean, Plan.puts]) htail

/-- What is planned for a call stays on one line, if the caller's fragments do. -/
theorem clean_call (c : Call) (hraw : ∀ f ∈ fragments [c], (10 : UInt8) ∉ f) (st : List Level)
    (d : Bool) : (Plan.call c st d).Clean := by
  have hbegin (array : Bool) (opening : UInt8) (hopening : opening ≠ 10) :
      (Plan.beginContainer array opening st d).Clean := by
    refine clean_andThen (clean_prepareValue st d) fun st d => clean_andThen ?_ fun st d => ?_
    · simpa [Plan.Clean, Plan.puts] using Ne.symm hopening
    · split_ifs
      · exact clean_refuse
      · exact clean_nothing _
  have hend (array : Bool) (closing : UInt8) (hclosing : closing ≠ 10) :
      (Plan.endContainer array closing st d).Clean := by
    unfold Plan.endContainer
    cases st with
    | nil => exact clean_refuse
    | cons l rest =>
      dsimp only
      split_ifs
      · exact clean_refuse
      · exact clean_refuse
      · simpa [Plan.Clean, Plan.puts] using Ne.symm hclosing
  cases c with
  | beginObject => exact hbegin _ _ (by decide)
  | beginArray => exact hbegin _ _ (by decide)
  | endObject => exact hend _ _ (by decide)
  | endArray => exact hend _ _ (by decide)
  | key k => exact clean_key k st d
  | item i => exact clean_value (lf_notMem_itemText i) st d
  | raw json =>
    have hjson : (10 : UInt8) ∉ json := hraw json (by simp [fragments])
    exact clean_value (by simpa using hjson) st d
  | member k i =>
    exact clean_andThen (clean_key k st d) fun st d => clean_value (lf_notMem_itemText i) st d
  | finish =>
    simp only [Plan.call]
    split_ifs
    · exact clean_refuse
    · exact clean_nothing _

theorem clean_calls (cs : List Call) (hraw : ∀ f ∈ fragments cs, (10 : UInt8) ∉ f)
    (st : List Level) (d : Bool) : (Plan.calls cs st d).Clean := by
  induction cs generalizing st d with
  | nil => exact clean_nothing _
  | cons c cs ih =>
    rw [fragments_cons] at hraw
    exact clean_andThen (clean_call c (fun f hf => hraw f (List.mem_append_left _ hf)) st d)
      fun st d => ih (fun f hf => hraw f (List.mem_append_right _ hf)) st d

end Clean
end AsmFlow.Json
