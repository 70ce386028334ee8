import CrowdScenario.Wire.Decoder

/-!
# What reading steps accept

`Exact step form` says that a step accepts precisely the bytes that are a written form of some value,
takes exactly these bytes and gives that value. Each step of the decoder gets its form, the smaller
ones first; `exact_readRecord` is the form of a whole record.
-/

namespace CrowdScenario
namespace Cursor

structure Took (c next : Cursor) (bs : Bytes) : Prop where
  rest : c.rest = bs ++ next.rest
  offset : next.offset = c.offset + bs.length

theorem took_nil {c next : Cursor} : Took c next [] ↔ next = c := by
  constructor
  · rintro ⟨hr, ho⟩
    rcases c with ⟨rest, offset⟩
    rcases next with ⟨rest', offset'⟩
    simp only [List.nil_append, List.length_nil, Nat.add_zero] at hr ho
    rw [hr, ho]
  · rintro rfl
    exact ⟨rfl, rfl⟩

theorem took_append {c next : Cursor} {bs bs' : Bytes} :
    Took c next (bs ++ bs') ↔ ∃ mid, Took c mid bs ∧ Took mid next bs' := by
  constructor
  · rintro ⟨hr, ho⟩
    refine ⟨⟨bs' ++ next.rest, c.offset + bs.length⟩, ⟨?_, rfl⟩, ⟨rfl, ?_⟩⟩
    · rw [hr, List.append_assoc]
    · rw [ho, List.length_append, Nat.add_assoc]
  · rintro ⟨mid, ⟨hr, ho⟩, ⟨hr', ho'⟩⟩
    refine ⟨?_, ?_⟩
    · rw [hr, hr', List.append_assoc]
    · rw [ho', ho, List.length_append, Nat.add_assoc]

/-- A step reads exactly the written forms of its values. -/
def Exact {α : Type} (step : Read α) (form : α → Bytes → Prop) : Prop :=
  ∀ c a next, step c = .ok (a, next) ↔ ∃ bs, form a bs ∧ Took c next bs

theorem Exact.congr {α : Type} {step : Read α} {form form' : α → Bytes → Prop}
    (hs : Exact step form) (h : ∀ a bs, form a bs ↔ form' a bs) : Exact step form' := by
  have heq : form = form' := by
    funext a bs
    exact propext (h a bs)
  exact heq ▸ hs

theorem exact_take (n : Nat) : Exact (take n) fun a bs => a = bs ∧ bs.length = n := by
  intro c a next
  constructor
  · intro h
    simp only [take] at h
    split at h
    · cases h
    · next hlen =>
      cases h
      have hn : (c.rest.take n).length = n := by
        have hle := List.length_take_le n c.rest
        omega
      exact ⟨_, ⟨rfl, hn⟩, ⟨(List.take_append_drop n c.rest).symm, by rw [hn]⟩⟩
  · rintro ⟨bs, ⟨rfl, rfl⟩, ⟨hr, ho⟩⟩
    rcases next with ⟨rest, offset⟩
    simp only at hr ho
    simp only [take, hr, List.take_left, List.drop_left, ho]
    rw [if_neg (Nat.lt_irrefl _)]

theorem exact_map {α β : Type} {f : α → β} {step : Read α} {form : α → Bytes → Prop}
    (hs : Exact step form) : Exact (map f step) fun b bs => ∃ a, f a = b ∧ form a bs := by
  intro c b next
  rw [map_eq_ok]
  constructor
  · rintro ⟨a, ha, hf⟩
    obtain ⟨bs, hform, htook⟩ := (hs c a next).mp ha
    exact ⟨bs, ⟨a, hf, hform⟩, htook⟩
  · rintro ⟨bs, ⟨a, hf, hform⟩, htook⟩
    exact ⟨a, (hs c a next).mpr ⟨bs, hform, htook⟩, hf⟩

theorem exact_andThen {α β : Type} {step : Read α} {following : α → Read β}
    {form : α → Bytes → Prop} {form' : α → β → Bytes → Prop} (hs : Exact step form)
    (hf : ∀ a, Exact (following a) (form' a)) :
    Exact (andThen step following)
      fun b bs => ∃ a bs1 bs2, bs = bs1 ++ bs2 ∧ form a bs1 ∧ form' a b bs2 := by
  intro c b next
  rw [andThen_eq_ok]
  constructor
  · rintro ⟨a, mid, ha, hb⟩
    obtain ⟨bs1, h1, t1⟩ := (hs c a mid).mp ha
    obtain ⟨bs2, h2, t2⟩ := (hf a mid b next).mp hb
    exact ⟨bs1 ++ bs2, ⟨a, bs1, bs2, rfl, h1, h2⟩, took_append.mpr ⟨mid, t1, t2⟩⟩
  · rintro ⟨bs, ⟨a, bs1, bs2, rfl, h1, h2⟩, htook⟩
    obtain ⟨mid, t1, t2⟩ := took_append.mp htook
    exact ⟨a, mid, (hs c a mid).mpr ⟨bs1, h1, t1⟩, (hf a mid b next).mpr ⟨bs2, h2, t2⟩⟩

/-- A step may use the offset it starts at, as long as that does not change what it accepts. -/
theorem exact_here {α : Type} {step : Nat → Read α} {form : α → Bytes → Prop}
    (hs : ∀ offset, Exact (step offset) form) : Exact (fun c => step c.offset c) form :=
  fun c a next => hs c.offset c a next

theorem exact_fail {α : Type} (e : DecodeError) : Exact (fail e : Read α) fun _ _ => False := by
  intro c a next
  constructor
  · intro h
    cases h
  · rintro ⟨bs, h, -⟩
    exact h.elim

theorem exact_pure {α : Type} (a : α) :
    Exact (fun c => .ok (a, c)) fun a' bs => a = a' ∧ bs = [] := by
  intro c a' next
  constructor
  · intro h
    cases h
    exact ⟨[], ⟨rfl, rfl⟩, took_nil.mpr rfl⟩
  · rintro ⟨bs, ⟨rfl, rfl⟩, htook⟩
    rw [took_nil.mp htook]

theorem exact_number (n : Nat) :
    Exact (number n) fun k bs => k < Bytes.span n ∧ bs = Bytes.bigEndian n k := by
  refine (exact_map (exact_take n)).congr fun k bs => ?_
  constructor
  · rintro ⟨a, rfl, rfl, rfl⟩
    exact ⟨Bytes.ofBigEndian_lt a, (Bytes.bigEndian_ofBigEndian a).symm⟩
  · rintro ⟨hk, rfl⟩
    refine ⟨_, ?_, rfl, Bytes.length_bigEndian n k⟩
    rw [Bytes.ofBigEndian_bigEndian, Nat.mod_eq_of_lt hk]

theorem exact_byte : Exact byte fun b bs => bs = [b] := by
  refine (exact_map (exact_number 1)).congr fun b bs => ?_
  have hspan : Bytes.span 1 = 256 := rfl
  constructor
  · rintro ⟨k, rfl, hk, rfl⟩
    rfl
  · rintro rfl
    refine ⟨b.toNat, UInt8.ofNat_toNat, b.toNat_lt, ?_⟩
    show [b] = [UInt8.ofNat b.toNat]
    rw [UInt8.ofNat_toNat]

theorem exact_float : Exact float fun x bs => bs = x.toBytes := by
  refine (exact_map (exact_take 8)).congr fun x bs => ?_
  constructor
  · rintro ⟨a, rfl, rfl, h⟩
    exact (Binary64.toBytes_ofBytes h).symm
  · rintro rfl
    exact ⟨_, Binary64.ofBytes_toBytes x, rfl, Binary64.length_toBytes x⟩

theorem exact_decodeText (offset : Nat) (taken : Bytes) :
    Exact (decodeText offset taken) fun s bs => taken = Bytes.ofText s ∧ bs = [] := by
  intro c s next
  unfold decodeText
  constructor
  · intro h
    split at h
    · next s' hs =>
      cases h
      exact ⟨[], ⟨(Bytes.ofText_of_toText? hs).symm, rfl⟩, took_nil.mpr rfl⟩
    · cases h
  · rintro ⟨bs, ⟨rfl, rfl⟩, htook⟩
    rw [Bytes.toText?_ofText, took_nil.mp htook]

theorem exact_text : Exact text fun s bs => textBytes? s = .ok bs := by
  have hbody (offset n : Nat) := exact_andThen (exact_take n) (exact_decodeText offset)
  refine (exact_andThen (exact_number 2) fun n => exact_here fun offset => hbody offset n).congr
    fun s bs => ?_
  have hspan : Bytes.span 2 = 65536 := rfl
  have hlongest : longestText = 65535 := rfl
  constructor
  · rintro ⟨n, bs1, bs2, rfl, ⟨hn, rfl⟩, taken, bs3, bs4, rfl, ⟨rfl, rfl⟩, rfl, rfl⟩
    have hle : (Bytes.ofText s).length ≤ longestText := by omega
    simp [textBytes?, hle]
  · intro h
    unfold textBytes? at h
    simp only at h
    split at h
    · next hle =>
      cases h
      refine ⟨(Bytes.ofText s).length, _, _, rfl, ⟨by omega, rfl⟩, Bytes.ofText s, _, [], ?_,
        ⟨rfl, rfl⟩, rfl, rfl⟩
      rw [List.append_nil]
    · cases h

theorem exact_distributionOf (offset : Nat) (code : Byte) :
    Exact (distributionOf offset code) fun d bs =>
      code = d.kind.code ∧ bs = d.first.toBytes ++ d.second.toBytes := by
  unfold distributionOf
  cases hk : DistributionKind.ofCode? code with
  | none =>
    refine (exact_fail _).congr fun d bs => ?_
    constructor
    · exact False.elim
    · rintro ⟨rfl, -⟩
      rw [DistributionKind.ofCode?_code] at hk
      cases hk
  | some kind =>
    have hcode := DistributionKind.code_of_ofCode? hk
    refine (exact_andThen exact_float fun first => exact_map exact_float).congr fun d bs => ?_
    constructor
    · rintro ⟨first, bs1, bs2, rfl, rfl, second, rfl, rfl⟩
      exact ⟨hcode.symm, rfl⟩
    · rintro ⟨rfl, rfl⟩
      rw [DistributionKind.ofCode?_code] at hk
      cases hk
      exact ⟨d.first, _, _, rfl, rfl, d.second, rfl, rfl⟩

theorem exact_distribution : Exact distribution fun d bs => bs = d.toBytes := by
  refine (exact_here fun offset => exact_andThen exact_byte (exact_distributionOf offset)).congr
    fun d bs => ?_
  constructor
  · rintro ⟨code, bs1, bs2, rfl, rfl, rfl, rfl⟩
    rfl
  · rintro rfl
    exact ⟨d.kind.code, [d.kind.code], _, rfl, rfl, rfl, rfl⟩

end Cursor
end CrowdScenario
