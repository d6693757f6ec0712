import RoutePattern.Parser.Blueprint
import RoutePattern.Proofs.Parser.Lossless
import RoutePattern.Proofs.Result

/-!
# Building parsers

The parser of a blueprint has no dangling references: each one that can be met in it, also behind other
references, is there and has a slot. So a reference leads nowhere only if its slot is empty or nobody owns
what was found there, which is what the lifetime of a declaration is about.

All parsers in slots and handles are looked at for that. Each step of building adds references before it uses
them, and a parse, which may happen in between, only moves parsers from slots to handles.

## Main definitions

* `Assembly.Within` — a parser with references up to some number; `World.IsClosed` — all parsers of a world.
* `Blueprint.extends_of_build` — what building leaves.
* `Blueprint.exists_slot_of_build` — a parser that is built has no dangling references.
* `Blueprint.target?_eq_none_iff` — when a reference leads nowhere.
-/

namespace RoutePattern

/-! ## References in a parser -/

namespace Assembly

/-- The references in a parser, without those behind them, come before a number. -/
def Within (n : Nat) (a : Assembly) : Prop := ∀ i, Contains ∅ a (.reference i) → i < n

variable {a : Assembly} {n m : Nat}

theorem Within.mono (h : a.Within n) (hle : n ≤ m) : a.Within m :=
  fun i hi => Nat.lt_of_lt_of_le (h i hi) hle

theorem within_reference {i : Nat} (h : i < n) : (reference i).Within n := by
  intro j hj
  cases hj with
  | refl => exact h
  | part hb _ => cases hb

/-- Only parts have references, but for a reference itself. -/
theorem within_of_parts (ha : ∀ i, a ≠ .reference i) (h : ∀ b ∈ a.parts ∅, b.Within n) : a.Within n := by
  intro i hi
  cases hi with
  | refl => exact absurd rfl (ha i)
  | part hb hi => exact h _ hb i hi

theorem Within.part {b : Assembly} (h : a.Within n) (hb : b ∈ a.parts ∅) : b.Within n :=
  fun i hi => h i (.part hb hi)

end Assembly

/-! ## Closed worlds -/

namespace Handle

variable {α : Type} {slot : Slot α} {handle : Handle α} {parser : α}

/-- A parser that a handle is bound to comes from its slot. -/
theorem eq_bound_of_resolve (h : handle.resolve slot = .bound parser) :
    handle = .bound parser ∨ slot.definition = some parser := by
  cases handle with
  | fresh =>
    rw [resolve] at h
    split at h
    · next hcontents =>
      cases h
      rw [Slot.contents?] at hcontents
      split at hcontents
      · exact .inr hcontents
      · cases hcontents
    · cases h
  | bound _ => exact .inl h
  | broken => cases h

theorem eq_bound_of_target? (h : handle.target? slot = some parser) : handle = .bound parser := by
  cases handle with
  | bound p =>
    rw [target?] at h
    split at h
    · rw [Option.some.inj h]
    · cases h
  | fresh | broken => cases h

/-- A reference leads nowhere if nothing was found, or nobody owns what was found. -/
theorem target?_resolve_eq_none_iff :
    (handle.resolve slot).target? slot = none ↔ handle.resolve slot = .broken ∨ slot.isOwned = false := by
  have hresolved : handle.resolve slot = .broken ∨ ∃ parser, handle.resolve slot = .bound parser := by
    cases handle with
    | fresh =>
      rw [resolve]
      cases slot.contents? with
      | none => exact .inl rfl
      | some parser => exact .inr ⟨parser, rfl⟩
    | bound parser => exact .inr ⟨parser, rfl⟩
    | broken => exact .inl rfl
  rcases hresolved with h | ⟨parser, h⟩ <;> simp [h, target?]

end Handle

theorem mem_modify {α : Type} {f : α → α} {l : List α} {i : Nat} {x : α} (h : x ∈ l.modify i f) :
    x ∈ l ∨ ∃ y ∈ l, x = f y := by
  obtain ⟨j, hj⟩ := List.mem_iff_getElem?.mp h
  rw [List.getElem?_modify] at hj
  obtain ⟨y, hy, rfl⟩ := Option.map_eq_some_iff.mp hj
  have hmem := List.mem_of_getElem? hy
  split
  · exact .inr ⟨y, hmem, rfl⟩
  · exact .inl hmem

namespace World

/-- All references that occur in a world are there, with their slots. -/
structure IsClosed (w : World) : Prop where
  slots : ∀ ref ∈ w.references, ref.slot < w.slots.length
  handles : ∀ ref ∈ w.references, ∀ a, ref.handle = .bound a → a.Within w.references.length
  definitions : ∀ slot ∈ w.slots, ∀ a, slot.definition = some a → a.Within w.references.length

variable {w u : World} {a : Assembly}

theorem isClosed_empty : (∅ : World).IsClosed :=
  ⟨fun _ h => (nomatch h), fun _ h => (nomatch h), fun _ h => (nomatch h)⟩

theorem IsClosed.changeSlot (h : w.IsClosed) {f : Slot Assembly → Slot Assembly}
    (hf : ∀ slot ∈ w.slots, ∀ a, (f slot).definition = some a → a.Within w.references.length) (i : Nat) :
    (w.changeSlot i f).IsClosed where
  slots ref href := by
    rw [World.changeSlot, List.length_modify]
    exact h.slots ref href
  handles := h.handles
  definitions slot hslot a ha := by
    rcases mem_modify hslot with hslot | ⟨old, hold, rfl⟩
    · exact h.definitions slot hslot a ha
    · exact hf old hold a ha

theorem IsClosed.define (h : w.IsClosed) (ha : a.Within w.references.length) (i : Nat) :
    (w.define i a).IsClosed := by
  refine h.changeSlot (fun slot hslot b hb => ?_) i
  rw [Slot.define] at hb
  split at hb
  · cases hb
    exact ha
  · exact h.definitions slot hslot b hb

theorem IsClosed.drop (h : w.IsClosed) (i : Nat) : (w.drop i).IsClosed := by
  refine h.changeSlot (fun slot hslot a ha => ?_) i
  exact h.definitions slot hslot a ha

theorem length_declareReferred (w : World) :
    w.declareReferred.2.2.references.length = w.references.length + 1 :=
  List.length_append

/-- A new slot is empty, and a new reference is fresh. -/
theorem IsClosed.declareReferred (h : w.IsClosed) : w.declareReferred.2.2.IsClosed := by
  have hle : w.references.length ≤ w.declareReferred.2.2.references.length := by
    rw [length_declareReferred]
    exact Nat.le_succ _
  constructor
  · intro ref href
    show ref.slot < (w.slots ++ [Slot.declare]).length
    rw [List.length_append]
    rcases List.mem_append.mp href with href | href
    · exact Nat.lt_add_right _ (h.slots ref href)
    · rw [List.mem_singleton.mp href]
      exact Nat.lt_succ_self _
  · intro ref href a ha
    rcases List.mem_append.mp href with href | href
    · exact (h.handles ref href a ha).mono hle
    · rw [List.mem_singleton.mp href] at ha
      cases ha
  · intro slot hslot a ha
    rcases List.mem_append.mp hslot with hslot | hslot
    · exact (h.definitions slot hslot a ha).mono hle
    · rw [List.mem_singleton.mp hslot] at ha
      cases ha

/-- A use binds a handle to what is in its slot. -/
theorem IsClosed.resolve (h : w.IsClosed) (i : Nat) : (w.resolve i).IsClosed := by
  have hresolve {ref : Reference} (href : ref ∈ (w.resolve i).references) :
      ∃ old ∈ w.references, ref = old ∨ ref = old.resolve w.slots := by
    rcases mem_modify href with href | ⟨old, hold, rfl⟩
    · exact ⟨ref, href, .inl rfl⟩
    · exact ⟨old, hold, .inr rfl⟩
  have hlength := w.length_references_resolve i
  constructor
  · intro ref href
    obtain ⟨old, hold, rfl | rfl⟩ := hresolve href
    · exact h.slots ref hold
    · rw [Reference.slot_resolve]
      exact h.slots old hold
  · intro ref href a ha
    rw [hlength]
    obtain ⟨old, hold, rfl | rfl⟩ := hresolve href
    · exact h.handles ref hold a ha
    · rw [Reference.resolve] at ha
      split at ha
      · next slot hslot =>
        rcases Handle.eq_bound_of_resolve ha with ha | ha
        · exact h.handles old hold a ha
        · exact h.definitions slot (List.mem_of_getElem? hslot) a ha
      · exact h.handles old hold a ha
  · intro slot hslot a ha
    rw [hlength]
    exact h.definitions slot hslot a ha

theorem IsClosed.reaches (h : w.IsClosed) (hu : w.Reaches u) : u.IsClosed := by
  induction hu with
  | refl => exact h
  | use _ i ih => exact ih.resolve i

/-- What a reference leads to has no dangling references, either. -/
theorem IsClosed.within_of_target? (h : w.IsClosed) {i : Nat} (ha : w.target? i = some a) :
    a.Within w.references.length := by
  rw [target?] at ha
  obtain ⟨ref, href, ha⟩ := Option.bind_eq_some_iff.mp ha
  obtain ⟨slot, hslot, ha⟩ := Option.bind_eq_some_iff.mp ha
  rcases Handle.eq_bound_of_resolve (Handle.eq_bound_of_target? ha) with ha | ha
  · exact h.handles ref (List.mem_of_getElem? href) a ha
  · exact h.definitions slot (List.mem_of_getElem? hslot) a ha

/-- The parts of a parser are within the references of the world, also those behind references. -/
theorem IsClosed.within_of_contains (h : w.IsClosed) {b : Assembly} (ha : a.Within w.references.length)
    (hb : Assembly.Contains w a b) : b.Within w.references.length := by
  refine hb.forall (fun c hc d hd => ?_) ha
  cases c with
  | reference i => exact h.within_of_target? (Option.mem_toList.mp hd)
  | _ => exact hc.part hd

end World

/-! ## Building -/

namespace Blueprint

open Assembly (within_of_parts within_reference)

variable {a : Assembly} {w w' u : World} {scope : Scope}

/-- What building leaves: a closed world with the references there were, and maybe more. -/
structure Extends (w w' : World) : Prop where
  closed : w'.IsClosed
  length_le : w.references.length ≤ w'.references.length

theorem Extends.refl (h : w.IsClosed) : Extends w w := ⟨h, Nat.le_refl _⟩

theorem Extends.trans (h : Extends w w') (h' : Extends w' u) : Extends w u :=
  ⟨h'.closed, Nat.le_trans h.length_le h'.length_le⟩

theorem Extends.declareReferred (h : w.IsClosed) : Extends w w.declareReferred.2.2 where
  closed := h.declareReferred
  length_le := by
    rw [World.length_declareReferred]
    exact Nat.le_succ _

theorem Extends.of_declareReferred (h : Extends w.declareReferred.2.2 w') (hw : w.IsClosed) : Extends w w' :=
  (Extends.declareReferred hw).trans h

theorem Extends.define (h : Extends w w') (ha : a.Within w'.references.length) (slot : Nat) :
    Extends w (w'.define slot a) := ⟨h.closed.define ha slot, h.length_le⟩

theorem Extends.drop (h : Extends w w') (slot : Nat) : Extends w (w'.drop slot) :=
  ⟨h.closed.drop slot, h.length_le⟩

/-- A parse leaves a closed world, if it comes to an end. -/
theorem Extends.parse (h : w.IsClosed) (a : Assembly) (s : Text) :
    Extends w ((a.parse s w).elim w Prod.snd) := by
  cases hparse : a.parse s w with
  | none => exact .refl h
  | some r =>
    have hreaches := (Assembly.proceeds_of_parse hparse).reaches
    exact ⟨h.reaches hreaches, Nat.le_of_eq hreaches.length_eq.symm⟩

/-- A closed world in which names stand for references that are there. -/
structure Binds (w : World) (scope : Scope) : Prop where
  closed : w.IsClosed
  lt_length : ∀ entry ∈ scope, entry.2 < w.references.length

theorem Binds.extend (h : Binds w scope) (hw' : Extends w w') : Binds w' scope :=
  ⟨hw'.closed, fun entry hentry => Nat.lt_of_lt_of_le (h.lt_length entry hentry) hw'.length_le⟩

theorem Binds.declareReferred (h : Binds w scope) (name : Text) :
    Binds w.declareReferred.2.2 ((name, w.declareReferred.2.1) :: scope) := by
  have hdeclared := Extends.declareReferred h.closed
  refine ⟨hdeclared.closed, List.forall_mem_cons.mpr ⟨?_, (h.extend hdeclared).lt_length⟩⟩
  rw [World.length_declareReferred]
  exact Nat.lt_succ_self _

mutual

/-- What building leaves, and what it gives. Each part is built in the world that the parts before it leave, so
the scope and the world are left free. -/
theorem extends_of_build : ∀ (b : Blueprint) {scope : Scope} {w w' : World} {a : Assembly},
    b.build scope w = .ok (a, w') → Binds w scope → Extends w w' ∧ a.Within w'.references.length
  | .literal _, _, _, _, _, h, hw | .anyChar, _, _, _, _, h, hw | .fail, _, _, _, _, h, hw => by
    rw [build] at h
    cases h
    exact ⟨.refl hw.closed, within_of_parts (fun _ h => nomatch h) (fun _ h => nomatch h)⟩
  | .fragment source, _, _, _, _, h, hw => by
    rw [build] at h
    split at h
    · cases h
      exact ⟨.refl hw.closed, within_of_parts (fun _ h => nomatch h) (fun _ h => nomatch h)⟩
    · cases h
  | .sequence parts, _, _, _, _, h, hw | .pick _ parts, _, _, _, _, h, hw
  | .firstOf parts, _, _, _, _, h, hw => by
    rw [build, bind_eq_ok_iff] at h
    obtain ⟨⟨parts', w₁⟩, hparts, h⟩ := h
    cases h
    obtain ⟨hextends, hwithin⟩ := extends_of_buildAll parts hparts hw
    exact ⟨hextends, within_of_parts (fun _ h => nomatch h) hwithin⟩
  | .many part, _, _, _, _, h, hw | .tag _ part, _, _, _, _, h, hw | .deferred part, _, _, _, _, h, hw
  | .weak part, _, _, _, _, h, hw | .dropped part, _, _, _, _, h, hw => by
    rw [build, bind_eq_ok_iff] at h
    obtain ⟨⟨part', w₁⟩, hpart, h⟩ := h
    cases h
    obtain ⟨hextends, hwithin⟩ := extends_of_build part hpart hw
    exact ⟨hextends, within_of_parts (fun _ h => nomatch h) (List.forall_mem_singleton.mpr hwithin)⟩
  | .concatUntil part stop, _, _, _, _, h, hw => by
    rw [build, bind_eq_ok_iff] at h
    obtain ⟨⟨part', w₁⟩, hpart, h⟩ := h
    obtain ⟨⟨stop', w₂⟩, hstop, h⟩ := bind_eq_ok_iff.mp h
    cases h
    obtain ⟨hpart₁, hwithin⟩ := extends_of_build part hpart hw
    obtain ⟨hstop₂, hwithin'⟩ := extends_of_build stop hstop (hw.extend hpart₁)
    refine ⟨hpart₁.trans hstop₂, within_of_parts (fun _ h => nomatch h) ?_⟩
    exact List.forall_mem_cons.mpr ⟨hwithin.mono hstop₂.length_le, List.forall_mem_singleton.mpr hwithin'⟩
  | .recursive name body, _, _, _, _, h, hw => by
    rw [build, bind_eq_ok_iff] at h
    obtain ⟨⟨body', w₁⟩, hbody, h⟩ := h
    cases h
    obtain ⟨hextends, hwithin⟩ := extends_of_build body hbody (hw.declareReferred name)
    exact ⟨(hextends.define hwithin _).of_declareReferred hw.closed, hwithin⟩
  | .redefined name body again, _, w, _, _, h, hw => by
    rw [build, bind_eq_ok_iff] at h
    obtain ⟨⟨body', w₁⟩, hbody, h⟩ := h
    obtain ⟨⟨again', w₂⟩, hagain, h⟩ := bind_eq_ok_iff.mp h
    cases h
    obtain ⟨hextends, hwithin⟩ := extends_of_build body hbody (hw.declareReferred name)
    have hdefined := hextends.define hwithin w.declareReferred.1
    obtain ⟨hextends', hwithin'⟩ := extends_of_build again hagain ((hw.declareReferred name).extend hdefined)
    exact ⟨((hdefined.trans hextends').define hwithin' _).of_declareReferred hw.closed, hwithin'⟩
  | .probed name body probe, _, _, _, a, h, hw => by
    rw [build, bind_eq_ok_iff] at h
    obtain ⟨⟨body', w₁⟩, hbody, h⟩ := h
    cases h
    obtain ⟨hextends, hwithin⟩ := extends_of_build body hbody (hw.declareReferred name)
    have hprobed := Extends.parse hextends.closed a probe
    have hwithin' := hwithin.mono hprobed.length_le
    exact ⟨((hextends.trans hprobed).define hwithin' _).of_declareReferred hw.closed, hwithin'⟩
  | .undefined name body, _, _, _, _, h, hw => by
    rw [build] at h
    obtain ⟨hextends, hwithin⟩ := extends_of_build body h (hw.declareReferred name)
    exact ⟨hextends.of_declareReferred hw.closed, hwithin⟩
  | .freed name body, _, _, _, _, h, hw => by
    rw [build, bind_eq_ok_iff] at h
    obtain ⟨⟨body', w₁⟩, hbody, h⟩ := h
    cases h
    obtain ⟨hextends, hwithin⟩ := extends_of_build body hbody (hw.declareReferred name)
    exact ⟨((hextends.define hwithin _).drop _).of_declareReferred hw.closed, hwithin⟩
  | .reference name, _, _, _, _, h, hw => by
    rw [build] at h
    split at h
    · next i hlookup =>
      cases h
      obtain ⟨front, behind, rfl, _⟩ := List.lookup_eq_some_iff.mp hlookup
      exact ⟨.refl hw.closed,
        within_reference (hw.lt_length (name, i) (List.mem_append_right _ List.mem_cons_self))⟩
    · cases h

theorem extends_of_buildAll : ∀ (bs : List Blueprint) {scope : Scope} {w w' : World} {parts : List Assembly},
    buildAll scope bs w = .ok (parts, w') → Binds w scope →
      Extends w w' ∧ ∀ part ∈ parts, part.Within w'.references.length
  | [], _, _, _, _, h, hw => by
    cases h
    exact ⟨.refl hw.closed, fun _ h => nomatch h⟩
  | b :: bs, _, _, _, _, h, hw => by
    rw [buildAll, bind_eq_ok_iff] at h
    obtain ⟨⟨part, w₁⟩, hpart, h⟩ := h
    obtain ⟨⟨parts', w₂⟩, hparts, h⟩ := bind_eq_ok_iff.mp h
    cases h
    obtain ⟨hpart₁, hwithin⟩ := extends_of_build b hpart hw
    obtain ⟨hparts₂, hwithins⟩ := extends_of_buildAll bs hparts (hw.extend hpart₁)
    exact ⟨hpart₁.trans hparts₂, List.forall_mem_cons.mpr ⟨hwithin.mono hparts₂.length_le, hwithins⟩⟩

end

variable {b : Blueprint} {i : Nat}

/-- **A parser that is built has no dangling references**, whatever is used in the meantime. -/
theorem exists_slot_of_build (h : b.build [] ∅ = .ok (a, w)) (hu : w.Reaches u)
    (hi : Assembly.Contains u a (.reference i)) :
    ∃ ref slot, u.references[i]? = some ref ∧ u.slots[ref.slot]? = some slot := by
  obtain ⟨hextends, hwithin⟩ := extends_of_build b h ⟨World.isClosed_empty, fun _ h => nomatch h⟩
  have hclosed := hextends.closed.reaches hu
  rw [← hu.length_eq] at hwithin
  have hlt := hclosed.within_of_contains hwithin hi i (.refl _)
  have hslot := hclosed.slots _ (List.getElem_mem hlt)
  exact ⟨_, _, List.getElem?_eq_getElem hlt, List.getElem?_eq_getElem hslot⟩

/-- A reference of a parser that is built leads nowhere only for what became of its slot. -/
theorem target?_eq_none_iff (h : b.build [] ∅ = .ok (a, w)) (hu : w.Reaches u)
    (hi : Assembly.Contains u a (.reference i)) :
    u.target? i = none ↔
      ∃ ref slot, u.references[i]? = some ref ∧ u.slots[ref.slot]? = some slot ∧
        (ref.handle.resolve slot = .broken ∨ slot.isOwned = false) := by
  obtain ⟨ref, slot, href, hslot⟩ := exists_slot_of_build h hu hi
  simp [World.target?, href, hslot, Handle.target?_resolve_eq_none_iff]

end Blueprint

end RoutePattern
