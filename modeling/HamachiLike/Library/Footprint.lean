import HamachiLike.Library.Buffer

/-! How far the accesses of a program over a buffer reach, found by rules that
follow the program and not by running it. -/

namespace HamachiLike.Buffer

universe u

variable {α β γ : Type u} {size limit : Nat} {post : β → Prop}

/-- The program returns on every buffer of at least `size` cells. Where it returns,
its value meets `post` and every cell from `limit` on is as before. -/
structure Footprint (program : Mem α β) (size limit : Nat) (post : β → Prop) : Prop where
  returns : ∀ buf : List α, size ≤ buf.length → ∃ result, program.run buf = some result
  keeps : ∀ (buf : List α) value after, program.run buf = some (value, after) →
    post value ∧ after.length = buf.length ∧ after.drop limit = buf.drop limit

namespace Footprint

/-- A program that touches less also stays inside more. -/
theorem mono {program : Mem α β} {size' limit' : Nat} {post' : β → Prop}
    (footprint : Footprint program size limit post) (more : size ≤ size') (further : limit ≤ limit')
    (weaker : ∀ value, post value → post' value) : Footprint program size' limit' post' where
  returns buf enough := footprint.returns buf (Nat.le_trans more enough)
  keeps buf value after ran := by
    obtain ⟨met, same, behind⟩ := footprint.keeps buf value after ran
    have moved := congrArg (List.drop (limit' - limit)) behind
    rw [List.drop_drop, List.drop_drop, Nat.add_sub_cancel' further] at moved
    exact ⟨weaker value met, same, moved⟩

theorem grow {program : Mem α β} {size' limit' : Nat} (footprint : Footprint program size limit post)
    (more : size ≤ size') (further : limit ≤ limit') : Footprint program size' limit' post :=
  footprint.mono more further fun _ met => met

theorem pure {value : β} (met : post value) : Footprint (α := α) (Pure.pure value) size limit post where
  returns buf _ := ⟨(value, buf), rfl⟩
  keeps buf _ _ ran := by
    cases ran
    exact ⟨met, rfl, rfl⟩

theorem bind {program : Mem α γ} {next : γ → Mem α β} {mid : γ → Prop}
    (first : Footprint program size limit mid)
    (rest : ∀ value, mid value → Footprint (next value) size limit post) :
    Footprint (program >>= next) size limit post where
  returns buf enough := by
    obtain ⟨⟨value, between⟩, ran⟩ := first.returns buf enough
    obtain ⟨met, same, _⟩ := first.keeps buf value between ran
    obtain ⟨result, ends⟩ := (rest value met).returns between (by omega)
    exact ⟨result, by rw [run_step_bind ran, ends]⟩
  keeps buf value after ran := by
    rw [StateT.run_bind] at ran
    obtain ⟨⟨middle, between⟩, first', second⟩ := Option.bind_eq_some_iff.mp ran
    obtain ⟨met, same, behind⟩ := first.keeps buf middle between first'
    obtain ⟨met', same', behind'⟩ := (rest middle met).keeps between value after second
    exact ⟨met', same'.trans same, behind'.trans behind⟩

theorem store {data : List α} {off : Nat} (fits : off + data.length ≤ size)
    (below : off + data.length ≤ limit) : Footprint (store off data) size limit fun _ => True where
  returns buf enough := ⟨_, run_store (by omega)⟩
  keeps buf value after ran := by
    rw [StateT.run, Buffer.store] at ran
    split at ran
    · cases ran
      refine ⟨trivial, length_writeAt _ _ _, ?_⟩
      apply List.ext_getElem?
      intro index
      rw [List.getElem?_drop, List.getElem?_drop, getElem?_writeAt, if_neg (by omega)]
    · cases ran

theorem load {off len : Nat} (fits : off + len ≤ size) :
    Footprint (α := α) (load off len) size limit fun _ => True where
  returns buf enough := by
    refine ⟨(slice buf off len, buf), ?_⟩
    rw [StateT.run, Buffer.load, if_pos (by omega)]
  keeps buf value after ran := by
    rw [StateT.run, Buffer.load] at ran
    split at ran
    · cases ran
      exact ⟨trivial, rfl, rfl⟩
    · cases ran

end Footprint

/-- Wherever the program returns, it leaves `cell` at `index`. -/
def Sets (program : Mem α β) (index : Nat) (cell : α) : Prop :=
  ∀ (buf : List α) value after, program.run buf = some (value, after) → after[index]? = some cell

namespace Sets

variable {index : Nat} {cell : α}

theorem store (index : Nat) (cell : α) : Sets (store index [cell]) index cell := by
  intro buf value after ran
  rw [StateT.run, Buffer.store] at ran
  split at ran
  · rename_i fits
    cases ran
    rw [List.length_singleton] at fits
    rw [getElem?_writeAt, if_pos (by simp; omega), Nat.sub_self]
    rfl
  · cases ran

/-- What a program sets, it sets behind any other. -/
theorem bind {program : Mem α γ} {next : γ → Mem α β} {mid : γ → Prop}
    (first : Footprint program size limit mid)
    (rest : ∀ value, mid value → Sets (next value) index cell) : Sets (program >>= next) index cell := by
  intro buf value after ran
  rw [StateT.run_bind] at ran
  obtain ⟨⟨middle, between⟩, first', second⟩ := Option.bind_eq_some_iff.mp ran
  exact rest middle (first.keeps buf middle between first').1 between value after second

/-- What a program sets stays when the rest does not reach that far. -/
theorem stays {program : Mem α γ} {next : γ → Mem α β} (first : Sets program index cell)
    (rest : ∀ value, Footprint (next value) size limit post) (below : limit ≤ index) :
    Sets (program >>= next) index cell := by
  intro buf value after ran
  rw [StateT.run_bind] at ran
  obtain ⟨⟨middle, between⟩, first', second⟩ := Option.bind_eq_some_iff.mp ran
  have kept := congrArg (·[index - limit]?) ((rest middle).keeps between value after second).2.2
  simp only [List.getElem?_drop, Nat.add_sub_cancel' below] at kept
  rw [kept]
  exact first buf middle between first'

end Sets

/-- Whatever memory holds behind the buffer, the program leaves it alone. -/
def KeepsBehind (program : Mem α β) (buf : List α) : Prop :=
  ∀ (behind : List α) value after, program.run (buf ++ behind) = some (value, after) →
    after.drop buf.length = behind

theorem Footprint.keepsBehind {program : Mem α β} {buf : List α}
    (footprint : Footprint program size limit post) (inside : limit ≤ buf.length) :
    KeepsBehind program buf := by
  intro behind value after ran
  have wider := footprint.grow (Nat.le_refl size) inside
  rw [(wider.keeps _ value after ran).2.2, List.drop_left]

/-- A cell set behind the buffer gives the program away. -/
theorem Sets.not_keepsBehind {program : Mem α β} {buf : List α} {index : Nat} {cell other : α}
    (sets : Sets program index cell) (footprint : Footprint program size limit post)
    (past : buf.length ≤ index) (differ : cell ≠ other) : ¬KeepsBehind program buf := by
  intro keeps
  obtain ⟨⟨value, after⟩, ran⟩ :=
    footprint.returns (buf ++ List.replicate (size + index + 1) other) (by simp; omega)
  have cells := congrArg (·[index - buf.length]?) (keeps _ value after ran)
  have stood : (List.replicate (size + index + 1) other)[index - buf.length]? = some other :=
    List.getElem?_replicate_of_lt (by omega)
  simp only [List.getElem?_drop, Nat.add_sub_cancel' past, sets _ value after ran, stood] at cells
  exact differ (Option.some.inj cells)

end HamachiLike.Buffer
