import Mathlib
import SphereLab.Proofs.Formula.Layout

/-!
# Texts of members

A notation writes the factors of a product with something between them, and the terms of a sum one
behind the other.  How a single factor or a single term is put beside a text is a matter of the
notation; that all of them together have the value of the product or of the sum is not, and follows
by induction over the members.

* `HaveValues`: the values of several members.
* `exists_intercalate`: the text of a product.
* `exists_append_join`: the text of a sum, behind its first term.
-/

namespace SphereLab

namespace Layout

open CExpression (Tree)

variable {ι : Type} {value? : ι → (String → Option ℝ) → Option ℝ} {text : ι → String}
  {members : List ι}

/-- All of several members have values. -/
def HaveValues (value? : ι → (String → Option ℝ) → Option ℝ) (env : String → Option ℝ) :
    List ι → List ℝ → Prop :=
  List.Forall₂ fun m v => value? m env = some v

theorem haveValues_replicate {env : String → Option ℝ} {m : ι} {v : ℝ}
    (h : value? m env = some v) (n : Nat) :
    HaveValues value? env (List.replicate n m) (List.replicate n v) := by
  induction n with
  | zero => exact .nil
  | succ n ih => exact .cons h ih

/-- The sum of the values of members behind their signs. -/
noncomputable def signedTotal (negative : ι → Bool) (members : List ι) (vs : List ℝ) : ℝ :=
  (List.zipWith (fun m v => signed (negative m) v) members vs).sum

/-- Factors are written with something between them.  `V` says how a factor is written and `W` how a
product is. -/
theorem exists_intercalate {separator : String} {V W : List Char → Tree → Prop}
    (hsingle : ∀ {cs x}, V cs x → W cs x)
    (hmul : ∀ {cs ds x y}, V cs x → W ds y → ∃ z, W (cs ++ (separator.toList ++ ds)) z ∧
      ∀ env a b, x.value? env = some a → y.value? env = some b → z.value? env = some (a * b))
    (hne : members ≠ [])
    (h : ∀ m ∈ members, ∃ x, V (text m).toList x ∧
      ∀ env v, value? m env = some v → x.value? env = some v) :
    ∃ x, W (separator.intercalate (members.map text)).toList x ∧
      ∀ env vs, HaveValues value? env members vs → x.value? env = some vs.prod := by
  induction members with
  | nil => exact absurd rfl hne
  | cons l ls ih =>
    obtain ⟨⟨x, hx, hvalue⟩, hls⟩ := List.forall_mem_cons.mp h
    cases ls with
    | nil =>
      refine ⟨x, ?_, ?_⟩
      · rw [List.map_singleton, String.intercalate_singleton]
        exact hsingle hx
      · intro env vs hvs
        obtain ⟨v, ws, hv, hws, rfl⟩ := List.forall₂_cons_left_iff.mp hvs
        rw [List.forall₂_nil_left_iff.mp hws, List.prod_singleton]
        exact hvalue env v hv
    | cons m ls =>
      obtain ⟨y, hy, hproduct⟩ := ih (List.cons_ne_nil m ls) hls
      obtain ⟨z, hz, hvalues⟩ := hmul hx hy
      refine ⟨z, ?_, ?_⟩
      · rw [List.map_cons, List.map_cons, String.intercalate_cons_cons, String.toList_append,
          String.toList_append, List.append_assoc]
        exact hz
      · intro env vs hvs
        obtain ⟨v, ws, hv, hws, rfl⟩ := List.forall₂_cons_left_iff.mp hvs
        rw [List.prod_cons]
        exact hvalues env v ws.prod (hvalue env v hv) (hproduct env ws hws)

/-- Terms are written behind a sum, one after the other.  `W` says how a sum is written. -/
theorem exists_append_join {W : List Char → Tree → Prop} {negative : ι → Bool}
    (h : ∀ m ∈ members, ∀ {cs x}, W cs x → ∃ y, W (cs ++ (text m).toList) y ∧
      ∀ env a v, x.value? env = some a → value? m env = some v →
        y.value? env = some (a + signed (negative m) v))
    {cs : List Char} {x : Tree} (hx : W cs x) :
    ∃ z, W (cs ++ (String.join (members.map text)).toList) z ∧
      ∀ env a vs, x.value? env = some a → HaveValues value? env members vs →
        z.value? env = some (a + signedTotal negative members vs) := by
  induction members generalizing cs x with
  | nil =>
    refine ⟨x, ?_, ?_⟩
    · rw [List.map_nil, String.join_nil, String.toList_empty, List.append_nil]
      exact hx
    · intro env a vs ha _
      rw [signedTotal, List.zipWith_nil_left, List.sum_nil, add_zero]
      exact ha
  | cons m ms ih =>
    obtain ⟨hm, hms⟩ := List.forall_mem_cons.mp h
    obtain ⟨y, hy, hvalue⟩ := hm hx
    obtain ⟨z, hz, htotal⟩ := ih hms hy
    refine ⟨z, ?_, ?_⟩
    · rw [List.map_cons, String.join_cons, String.toList_append, ← List.append_assoc]
      exact hz
    · intro env a vs ha hvs
      obtain ⟨v, ws, hv, hws, rfl⟩ := List.forall₂_cons_left_iff.mp hvs
      rw [htotal env _ ws (hvalue env a v ha hv) hws, signedTotal, signedTotal,
        List.zipWith_cons_cons, List.sum_cons, add_assoc]

end Layout

end SphereLab
