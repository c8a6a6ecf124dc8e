import FlakeWm.ActiveOutputs.Refresh

/-! What holds of every buffer of a tree (`src/scene/scene.c`).

    A property of buffers at their places is kept by the operations on trees as far as they refresh what they move. -/

namespace FlakeWm.ActiveOutputs

/-- Something holds of the buffer, if the node is one. -/
def Kind.Each (P : SceneBuffer → Prop) : Kind → Prop
  | .tree => True
  | .rect => True
  | .buffer b => P b

theorem Kind.each_map {P : SceneBuffer → Prop} {f : SceneBuffer → SceneBuffer} (k : Kind) :
    (k.map f).Each P ↔ k.Each fun b => P (f b) := by
  cases k <;> rfl

theorem Kind.Each.mono {P Q : SceneBuffer → Prop} (hPQ : ∀ b, P b → Q b) {k : Kind} (h : k.Each P) : k.Each Q := by
  cases k with
  | tree => trivial
  | rect => trivial
  | buffer b => exact hPQ b h

namespace Forest

/-- Something holds of every buffer, its node and its place. -/
def Each (P : ℕ → SceneBuffer → ℤ → ℤ → Prop) : Forest → ℤ → ℤ → Prop
  | nil, _, _ => True
  | node n children above, x, y =>
      (n.kind.Each fun b => P n.id b (x + n.x) (y + n.y)) ∧ Each P children (x + n.x) (y + n.y) ∧ Each P above x y

variable {P Q : ℕ → SceneBuffer → ℤ → ℤ → Prop} {outputs : List SceneOutput}

theorem each_mapBuffers (g : ℕ → SceneBuffer → ℤ → ℤ → SceneBuffer) : ∀ (f : Forest) (x y : ℤ),
    (f.mapBuffers g x y).Each P x y ↔ f.Each (fun id b x y => P id (g id b x y) x y) x y
  | nil, _, _ => Iff.rfl
  | node n children above, x, y => by
      rw [mapBuffers, Each, Each]
      refine and_congr (Kind.each_map _) (and_congr ?_ ?_)
      · exact each_mapBuffers g children _ _
      · exact each_mapBuffers g above x y

theorem Each.mono (hPQ : ∀ id b x y, P id b x y → Q id b x y) : ∀ {f : Forest} {x y : ℤ}, f.Each P x y → f.Each Q x y
  | nil, _, _, _ => trivial
  | node _ _ _, _, _, ⟨hn, hchildren, habove⟩ =>
      ⟨hn.mono fun _ h => hPQ _ _ _ _ h, hchildren.mono hPQ, habove.mono hPQ⟩

theorem each_and {f : Forest} {x y : ℤ} :
    f.Each (fun id b x y => P id b x y ∧ Q id b x y) x y ↔ f.Each P x y ∧ f.Each Q x y := by
  induction f generalizing x y with
  | nil => simp [Each]
  | node n children above ihchildren ihabove =>
    rw [Each, Each, Each, ihchildren, ihabove]
    cases n.kind <;> simp [Kind.Each] <;> tauto

/-- Where the one is known, the other may be replaced by what it says under it. -/
theorem Each.congr {R : ℕ → SceneBuffer → ℤ → ℤ → Prop} {f : Forest} {x y : ℤ} (h : f.Each P x y)
    (hQR : ∀ id b x y, P id b x y → (Q id b x y ↔ R id b x y)) : f.Each Q x y ↔ f.Each R x y := by
  constructor
  · intro hQ
    exact (each_and.2 ⟨h, hQ⟩).mono fun id b x y hb => (hQR id b x y hb.1).1 hb.2
  · intro hR
    exact (each_and.2 ⟨h, hR⟩).mono fun id b x y hb => (hQR id b x y hb.1).2 hb.2

/-- What does not depend on the place holds at every place. -/
theorem Each.anywhere {P : SceneBuffer → Prop} : ∀ {f : Forest} {x y : ℤ} (x' y' : ℤ),
    f.Each (fun _ b _ _ => P b) x y → f.Each (fun _ b _ _ => P b) x' y'
  | nil, _, _, _, _, _ => trivial
  | node _ _ _, _, _, _, _, ⟨hn, hchildren, habove⟩ => ⟨hn, hchildren.anywhere _ _, habove.anywhere _ _⟩

/-! ### The operations -/

theorem each_find {P : SceneBuffer → Prop} {id : ℕ} {n : Node} {children : Forest} : ∀ {f : Forest} {x y : ℤ},
    f.Each (fun _ b _ _ => P b) x y → f.find id = some (n, children) →
      n.kind.Each P ∧ children.Each (fun _ b _ _ => P b) 0 0
  | nil, _, _, _, hfind => by cases hfind
  | node m below above, x, y, ⟨hm, hbelow, habove⟩, hfind => by
      rw [find] at hfind
      split at hfind
      · cases hfind
        exact ⟨hm, hbelow.anywhere 0 0⟩
      · cases hchild : below.find id with
        | some found =>
          rw [hchild, Option.orElse_some] at hfind
          exact each_find hbelow (hchild.trans hfind)
        | none =>
          rw [hchild, Option.orElse_none] at hfind
          exact each_find habove hfind

theorem each_remove (id : ℕ) : ∀ {f : Forest} {x y : ℤ}, f.Each P x y → (f.remove id).Each P x y
  | nil, _, _, _ => trivial
  | node n children above, _, _, ⟨hn, hchildren, habove⟩ => by
      rw [remove]
      split
      · exact each_remove id habove
      · exact ⟨hn, each_remove id hchildren, each_remove id habove⟩

theorem each_addTop {n : Node} {children : Forest} : ∀ {f : Forest} {x y : ℤ}, f.Each P x y →
    (n.kind.Each fun b => P n.id b (x + n.x) (y + n.y)) → children.Each P (x + n.x) (y + n.y) →
    (addTop n children f).Each P x y
  | nil, _, _, _, hn, hchildren => ⟨hn, hchildren, trivial⟩
  | node _ _ _, _, _, ⟨hm, hbelow, habove⟩, hn, hchildren => ⟨hm, hbelow, each_addTop habove hn hchildren⟩

/-! ### The buffers are right -/

/-- Every buffer is right for the place where it is. -/
def Good (outputs : List SceneOutput) : Forest → ℤ → ℤ → Prop := Each fun _ b => BufferGood outputs b

/-- The events of every buffer agree with its mask. -/
def AllLogged (outputs : List SceneOutput) : Forest → ℤ → ℤ → Prop := Each fun _ b _ _ => Logged outputs b

theorem Good.allLogged {f : Forest} {x y : ℤ} (h : f.Good outputs x y) : f.AllLogged outputs x y :=
  Each.mono (fun _ _ _ _ hb => hb.logged) h

theorem updateOutputs_good (hdistinct : Distinct outputs) (ignore : Option ℕ) {f : Forest} {x y : ℤ}
    (h : f.AllLogged outputs x y) : (f.updateOutputs outputs ignore x y).Good (kept ignore outputs) x y :=
  (each_mapBuffers _ f x y).2 (Each.mono (fun _ _ x y hb => ActiveOutputs.updateOutputs_good hdistinct hb ignore x y) h)

/-- The buffer of a moved node and the buffers below it are refreshed at the new place. -/
theorem setPosition_good (hdistinct : Distinct outputs) (id : ℕ) (newX newY : ℤ) : ∀ {f : Forest} {x y : ℤ},
    f.Good outputs x y → (f.setPosition outputs id newX newY x y).Good outputs x y
  | nil, _, _, _ => trivial
  | node n children above, x, y, ⟨hn, hchildren, habove⟩ => by
      rw [setPosition]
      split
      · refine ⟨(Kind.each_map _).2 (hn.mono fun b hb => ?_), ?_, setPosition_good hdistinct id newX newY habove⟩
        · simpa using ActiveOutputs.updateOutputs_good hdistinct hb.logged none (x + newX) (y + newY)
        · have := updateOutputs_good hdistinct none ((Good.allLogged hchildren).anywhere (x + newX) (y + newY))
          rwa [kept_none] at this
      · exact ⟨hn, setPosition_good hdistinct id newX newY hchildren, setPosition_good hdistinct id newX newY habove⟩

theorem insert_good (hdistinct : Distinct outputs) (parent : ℕ) {n : Node} {children : Forest}
    (hn : n.kind.Each (Logged outputs)) (hchildren : children.AllLogged outputs 0 0) : ∀ {f : Forest} {x y : ℤ},
    f.Good outputs x y → (insert outputs parent n children f x y).Good outputs x y
  | nil, _, _, _ => trivial
  | node m below above, x, y, ⟨hm, hbelow, habove⟩ => by
      rw [insert]
      split
      · refine ⟨hm, each_addTop hbelow ?_ ?_, insert_good hdistinct parent hn hchildren habove⟩
        · refine (Kind.each_map _).2 (hn.mono fun b hb => ?_)
          simpa using ActiveOutputs.updateOutputs_good hdistinct hb none (x + m.x + n.x) (y + m.y + n.y)
        · have := updateOutputs_good hdistinct none (hchildren.anywhere (x + m.x + n.x) (y + m.y + n.y))
          rwa [kept_none] at this
      · exact ⟨hm, insert_good hdistinct parent hn hchildren hbelow, insert_good hdistinct parent hn hchildren habove⟩

end Forest

end FlakeWm.ActiveOutputs
