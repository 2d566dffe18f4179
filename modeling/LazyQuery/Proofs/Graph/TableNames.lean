import LazyQuery.Graph.Build
import LazyQuery.Proofs.Store.Tables
import LazyQuery.Proofs.Text.Numerals

/-!
# Names of tables

The tables of different nodes have names that the store tells apart, also those of graphs with
different tags, and none of them is the name of a listing or of another table that every database has.
-/

set_option autoImplicit false

namespace LazyQuery

open Sql

theorem folded_append (a b : String) : Like.folded (a ++ b) = Like.folded a ++ Like.folded b := by
  simp [Like.folded]

theorem folded_toString (n : Nat) : Like.folded (toString n) = Nat.toDigits 10 n := by
  rw [Like.folded, Nat.toString_eq_ofList_toDigits, String.toList_ofList]
  have digits : ∀ c ∈ Nat.toDigits 10 n, c.toLower = id c := fun c hc =>
    Decimal.toLower_of_isDigit (Nat.isDigit_of_mem_toDigits (by decide) (by decide) hc)
  rw [List.map_congr_left digits, List.map_id]

namespace Graph

theorem folded_tableName (g : Graph) (i : NodeId) : Like.folded (g.tableName i) =
    't' :: (Like.folded g.tag ++ '_' :: Nat.toDigits 10 i) := by
  rw [tableName, folded_append, folded_append, folded_append, folded_toString]
  simp [Like.folded]

theorem sameName_tableName {g : Graph} {i j : NodeId} :
    sameName (g.tableName i) (g.tableName j) = true ↔ i = j := by
  rw [sameName_iff]
  refine ⟨fun h => ?_, fun h => h ▸ rfl⟩
  have digits : Nat.toDigits 10 i = Nat.toDigits 10 j := by
    simpa [folded_tableName] using h
  rw [← @Nat.ofDigitChars_ten_toDigits i, digits, Nat.ofDigitChars_ten_toDigits]

theorem sameName_tableName_ne {g : Graph} {i j : NodeId} (h : i ≠ j) :
    sameName (g.tableName i) (g.tableName j) = false :=
  Bool.eq_false_iff.2 fun hs => h (sameName_tableName.1 hs)

/-- What stands before a number can be read off: the number has no underscore. -/
theorem eq_of_append_digits {a b : List Char} {i j : Nat}
    (h : a ++ '_' :: Nat.toDigits 10 i = b ++ '_' :: Nat.toDigits 10 j) : a = b := by
  have before (c : List Char) (k : Nat) :
      (c ++ '_' :: Nat.toDigits 10 k).reverse.dropWhile Char.isDigit = '_' :: c.reverse := by
    have digits : ∀ d ∈ (Nat.toDigits 10 k).reverse, d.isDigit = true := fun d hd =>
      Nat.isDigit_of_mem_toDigits (by decide) (by decide) (List.mem_reverse.1 hd)
    rw [List.reverse_append, List.reverse_cons, List.append_assoc,
      List.dropWhile_append_of_pos digits]
    rfl
  have hr := before a i
  rw [h, before, List.cons.injEq] at hr
  exact List.reverse_inj.1 hr.2.symm

/-- The tag can be read off a name, as far as names are told apart. -/
theorem sameName_tag {g g' : Graph} {i j : NodeId}
    (h : sameName (g.tableName i) (g'.tableName j) = true) : sameName g.tag g'.tag = true := by
  rw [sameName_iff, folded_tableName, folded_tableName, List.cons.injEq] at h
  exact sameName_iff.2 (eq_of_append_digits h.2)

/-- Graphs with different tags have different names. -/
theorem tag_eq_of_tableName_eq {g g' : Graph} {i j : NodeId} (h : g.tableName i = g'.tableName j) :
    g.tag = g'.tag := by
  have characters (g : Graph) (i : NodeId) :
      (g.tableName i).toList = 't' :: (g.tag.toList ++ '_' :: Nat.toDigits 10 i) := by
    simp [tableName]
  have hc := characters g i
  rw [h, characters, List.cons.injEq] at hc
  exact String.toList_inj.1 (eq_of_append_digits hc.2.symm)

/-- The names of tables begin like no name that every database has. -/
theorem sameName_tableName_of_head {n : String} (hn : (Like.folded n).head? ≠ some 't') (g : Graph)
    (i : NodeId) : sameName (g.tableName i) n = false := by
  refine Bool.eq_false_iff.2 fun h => hn ?_
  rw [← sameName_iff.1 h, folded_tableName]
  rfl

theorem isListingName_tableName (g : Graph) (i : NodeId) :
    Database.isListingName (g.tableName i) = false := by
  have listing : ∀ n ∈ Database.listingNames ++ Database.emptyListingNames,
      (Like.folded n).head? ≠ some 't' := by decide
  rw [Database.isListingName, ← List.any_append, List.any_eq_false]
  exact fun n hn => by rw [sameName_tableName_of_head (listing n hn)]; decide

theorem isBuiltIn_tableName (g : Graph) (i : NodeId) : Database.isBuiltIn (g.tableName i) = false := by
  have builtIn : ∀ n ∈ BuiltIn.unreadNames ++ (Database.builtIns .empty).map BuiltIn.name,
      (Like.folded n).head? ≠ some 't' := by decide
  rw [Database.isBuiltIn, Bool.or_eq_false_iff, List.any_eq_false, List.any_eq_false]
  refine ⟨fun n hn => ?_, fun t ht => ?_⟩
  · rw [sameName_tableName_of_head (builtIn n (List.mem_append_left _ hn))]
    decide
  · rw [sameName_tableName_of_head
      (builtIn t.name (List.mem_append_right _ (List.mem_map_of_mem ht)))]
    decide

end Graph
end LazyQuery
