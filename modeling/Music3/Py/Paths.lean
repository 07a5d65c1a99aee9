import Music3.Py.RoundTrip

/-!
# Reading a value back by its keys

`reread v` is what `json.loads` makes of the text that `json.dumps(v, sort_keys=True)` writes.
`at?_reread`: what a path of plain keys leads to in it is the `reread` of what the path leads to in
`v`. Only the `dict`s on the path matter (`Sound`). A value whose `dict`s all have distinct keys is
sound for every path (`WF.sound`).

`reread_of_stable`: a value that the text does not change (`Stable`) is read back with its keys in
order.
-/

namespace Py

namespace Json

/-- The value at a path of keys. -/
def at? (v : Json) : List Str → Option Json
  | [] => some v
  | k :: ks =>
    match v with
    | obj kvs => (Dict.get? kvs k).bind fun x => at? x ks
    | _ => none

/-- The keys of the path are plain, and the `dict`s on it have distinct keys. -/
def Sound (v : Json) : List Str → Prop
  | [] => True
  | k :: ks =>
    match v with
    | obj kvs => Dict.Ok kvs ∧ plain k ∧ ∀ x, Dict.get? kvs k = some x → Sound x ks
    | _ => True

/-- The value as it is read back. -/
def reread (v : Json) : Json := norm v.sortKeys

theorem get?_sortKeysFields (kvs : Dict) (k : Str) :
    Dict.get? (sortKeysFields kvs) k = (kvs.get? k).map sortKeys := by
  induction kvs with
  | nil => rfl
  | cons p kvs ih =>
    rw [sortKeysFields, Dict.get?_cons, Dict.get?_cons, ih]
    split <;> rfl

theorem ok_sortKeysFields {kvs : Dict} (h : kvs.Ok) : Dict.Ok (sortKeysFields kvs) := by
  have e : Assoc.keys (sortKeysFields kvs) = Assoc.keys kvs := by
    rw [sortKeysFields_eq]
    simp [Assoc.keys]
  rw [Dict.Ok, e]
  exact h

theorem ok_sortItems {kvs : Dict} (h : kvs.Ok) : Dict.Ok (sortItems kvs) :=
  ((sortItems_perm kvs).map Prod.fst).nodup_iff.mpr h

theorem get?_sortItems {kvs : Dict} (h : kvs.Ok) (k : Str) :
    Dict.get? (sortItems kvs) k = kvs.get? k :=
  Assoc.get?_perm (sortItems_perm kvs) (ok_sortItems h) k

/-- The `reread` of a `dict`, by its keys. -/
theorem get?_reread {kvs : Dict} (h : kvs.Ok) :
    ∃ kvs', reread (obj kvs) = obj kvs' ∧
      ∀ k, plain k → Dict.get? kvs' k = (kvs.get? k).map reread := by
  have hs := ok_sortKeysFields h
  refine ⟨Dict.ofPairs (normFields (sortItems (sortKeysFields kvs))), rfl, fun k hk => ?_⟩
  rw [get?_norm (ok_sortItems hs) hk, get?_sortItems hs, get?_sortKeysFields, Option.map_map]
  rfl

/-- What a path leads to in the image of a value under a function that keeps the plain keys. -/
theorem at?_image {g : Json → Json}
    (hobj : ∀ {kvs : Dict}, kvs.Ok → ∃ kvs', g (obj kvs) = obj kvs' ∧
      ∀ k, plain k → Dict.get? kvs' k = (kvs.get? k).map g)
    (hother : ∀ v, v.asDict = none → (g v).asDict = none) {v : Json} {ks : List Str}
    (h : Sound v ks) : (g v).at? ks = (v.at? ks).map g := by
  induction ks generalizing v with
  | nil => rfl
  | cons k ks ih =>
    have hnone : ∀ w : Json, w.asDict = none → w.at? (k :: ks) = none := by
      intro w hw
      cases w <;> first | rfl | cases hw
    cases hv : v.asDict with
    | none => rw [hnone _ (hother v hv), hnone v hv]; rfl
    | some kvs =>
      obtain rfl : v = obj kvs := by
        cases v <;> cases hv
        rfl
      obtain ⟨hok, hk, hx⟩ := h
      obtain ⟨kvs', e, hget⟩ := hobj hok
      rw [e]
      show (Dict.get? kvs' k).bind _ = Option.map g ((Dict.get? kvs k).bind _)
      rw [hget k hk]
      cases hv : Dict.get? kvs k with
      | none => rfl
      | some x => exact ih (hx x hv)

/-- What a path leads to in the value that is read back. -/
theorem at?_reread {v : Json} {ks : List Str} (h : Sound v ks) :
    (reread v).at? ks = (v.at? ks).map reread :=
  at?_image get?_reread (fun v hv => by cases v <;> first | rfl | cases hv) h

/-- The same without sorting. -/
theorem at?_norm {v : Json} {ks : List Str} (h : Sound v ks) :
    (norm v).at? ks = (v.at? ks).map norm :=
  at?_image (fun h => ⟨_, rfl, fun _ hk => get?_norm h hk⟩)
    (fun v hv => by cases v <;> first | rfl | cases hv) h

theorem sound_one {kvs : Dict} (h : kvs.Ok) {k : Str} (hk : plain k) : (obj kvs).Sound [k] :=
  ⟨h, hk, fun _ _ => trivial⟩

theorem sound_two {kvs sub : Dict} (h : kvs.Ok) {j k : Str} (hj : plain j)
    (hsub : kvs.get? j = some (obj sub)) (hs : sub.Ok) (hk : plain k) : (obj kvs).Sound [j, k] := by
  refine ⟨h, hj, fun x hx => ?_⟩
  rw [hsub] at hx
  cases hx
  exact sound_one hs hk

theorem wf_of_get? {kvs : Dict} (h : WFFields kvs) {k : Str} {x : Json} (hx : kvs.get? k = some x) :
    WF x := by
  induction kvs with
  | nil => cases hx
  | cons p kvs ih =>
    obtain ⟨j, y⟩ := p
    rw [Dict.get?_cons] at hx
    split at hx
    · cases hx; exact h.1
    · exact ih h.2 hx

theorem WF.sound {v : Json} (h : v.WF) {ks : List Str} (hk : ∀ k ∈ ks, plain k) : v.Sound ks := by
  induction ks generalizing v with
  | nil => trivial
  | cons k ks ih =>
    cases v with
    | obj kvs =>
      rw [WF] at h
      exact ⟨h.1, hk k List.mem_cons_self, fun x hx =>
        ih (wf_of_get? h.2 hx) fun j hj => hk j (List.mem_cons_of_mem _ hj)⟩
    | _ => trivial

/-! ## Values that a text does not change -/

mutual
/-- The keys of every `dict` are distinct, no string has a high surrogate before a low one, and a
NaN is the one that is read. -/
def Stable : Json → Prop
  | str s => normStr s = s
  | float x => normFloat x = x
  | arr xs => StableList xs
  | obj kvs => Dict.Ok kvs ∧ StableFields kvs
  | _ => True
def StableList : List Json → Prop
  | [] => True
  | x :: xs => Stable x ∧ StableList xs
def StableFields : List (Str × Json) → Prop
  | [] => True
  | (k, x) :: kvs => normStr k = k ∧ Stable x ∧ StableFields kvs
end

theorem stableFields_iff {d : Dict} :
    StableFields d ↔ ∀ p ∈ d, normStr p.1 = p.1 ∧ Stable p.2 := by
  induction d with
  | nil => simp [StableFields]
  | cons p d ih => simp [StableFields, ih, and_assoc]

theorem ofPairs_of_ok {d : Dict} (h : d.Ok) : Dict.ofPairs d = d := by
  have hset : ∀ (d acc : Dict), (Assoc.keys (acc ++ d)).Nodup →
      d.foldl (fun d p => d.set p.1 p.2) acc = acc ++ d := by
    intro d
    induction d with
    | nil => intro acc _; rw [List.foldl_nil, List.append_nil]
    | cons p d ih =>
      intro acc hn
      have happ : acc ++ p :: d = acc ++ [p] ++ d := by rw [List.append_assoc]; rfl
      rw [happ] at hn ⊢
      rw [List.foldl_cons, Dict.set, Assoc.set_of_not_mem, ih _ hn]
      have hn' : (Assoc.keys acc ++ ([p.1] ++ Assoc.keys d)).Nodup := by
        simpa [Assoc.keys, List.append_assoc] using hn
      exact fun hm => (List.nodup_append.mp hn').2.2 _ hm _ (by simp) rfl
  exact hset d [] h

mutual
theorem norm_of_stable : ∀ {v : Json}, v.Stable → norm v = v
  | str _, h => congrArg str h
  | float _, h => congrArg float h
  | arr _, h => congrArg arr (normList_of_stable h)
  | obj kvs, h => by
    rw [norm, normFields_of_stable h.2, ofPairs_of_ok h.1]
  | null, _ => rfl
  | bool _, _ => rfl
  | int _, _ => rfl
theorem normList_of_stable : ∀ {xs : List Json}, StableList xs → normList xs = xs
  | [], _ => rfl
  | x :: xs, h => by rw [normList, norm_of_stable h.1, normList_of_stable h.2]
theorem normFields_of_stable : ∀ {kvs : List (Str × Json)}, StableFields kvs → normFields kvs = kvs
  | [], _ => rfl
  | (k, x) :: kvs, h => by
    rw [normFields, h.1, norm_of_stable h.2.1, normFields_of_stable h.2.2]
end

mutual
theorem Stable.sortKeys : ∀ {v : Json}, v.Stable → v.sortKeys.Stable
  | str _, h => h
  | float _, h => h
  | arr _, h => StableList.sortKeys h
  | obj kvs, h => by
    refine ⟨ok_sortItems (ok_sortKeysFields h.1), stableFields_iff.mpr fun p hp => ?_⟩
    exact stableFields_iff.mp (StableFields.sortKeys h.2) p ((sortItems_perm _).mem_iff.mp hp)
  | null, _ => trivial
  | bool _, _ => trivial
  | int _, _ => trivial
theorem StableList.sortKeys : ∀ {xs : List Json}, StableList xs → StableList (sortKeysList xs)
  | [], _ => trivial
  | _ :: _, h => ⟨h.1.sortKeys, StableList.sortKeys h.2⟩
theorem StableFields.sortKeys : ∀ {kvs : List (Str × Json)}, StableFields kvs →
    StableFields (sortKeysFields kvs)
  | [], _ => trivial
  | (_, _) :: _, h => ⟨h.1, h.2.1.sortKeys, StableFields.sortKeys h.2.2⟩
end

/-- A stable value is read back with its keys in order. -/
theorem reread_of_stable {v : Json} (h : v.Stable) : reread v = v.sortKeys :=
  norm_of_stable h.sortKeys

end Json

end Py
