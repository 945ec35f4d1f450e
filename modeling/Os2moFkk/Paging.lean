import Os2moFkk.EventGenerator

/-!
# Paging a list that changes

FKK answers each page from the list as it stands at that moment. Registrations
between two requests can move an entry from behind the cursor to before it,
where no page of the call is asked for any more (`complete_unless_slips`).
-/

namespace Os2moFkk.EventGenerator

/-- The loop over pages: `found` is the list that FKK holds at each request, and
`request` counts the requests made. Without `fuel` it is still running. -/
def getChangedUuids (found : Nat → List UUID) : Nat → Nat → List UUID → Option (List UUID)
  | 0, _, _ => none
  | fuel + 1, request, changed =>
    let page := search (found request) (request * pageLimit)
    if page = [] then some changed
    else getChangedUuids found fuel (request + 1) (changed ∪ page)

/-- A request is made when none before it got an empty page. -/
def Requested (found : Nat → List UUID) (request : Nat) : Prop :=
  ∀ i < request, search (found i) (i * pageLimit) ≠ []

/-- The UUID is on the page that a request gets. -/
def OnPage (found : Nat → List UUID) (uuid : UUID) (request : Nat) : Prop :=
  uuid ∈ search (found request) (request * pageLimit)

instance (found : Nat → List UUID) (uuid : UUID) (request : Nat) :
    Decidable (OnPage found uuid request) := inferInstanceAs (Decidable (_ ∈ _))

/-- After this request the UUID moves from where the next page starts, or later,
to before that. -/
def Slips (found : Nat → List UUID) (uuid : UUID) (request : Nat) : Prop :=
  uuid ∉ (found request).take ((request + 1) * pageLimit) ∧
    uuid ∈ (found (request + 1)).take ((request + 1) * pageLimit)

/-- The UUID slips, and no page up to then has held it. -/
def SlipsUnread (found : Nat → List UUID) (uuid : UUID) (request : Nat) : Prop :=
  (∀ i ≤ request, ¬ OnPage found uuid i) ∧ Slips found uuid request

/-- What FKK holds at each request: only new registrations are added in between,
and each time the matching UUIDs are listed in some order. -/
structure Answers (selected : Registration → Prop) (since : Int)
    (registrations : Nat → List Registration) (found : Nat → List UUID) : Prop where
  grows : ∀ i, (registrations i).IsSuffix (registrations (i + 1))
  lists : ∀ i, Found selected (registrations i) since (found i)

section
variable {selected : Registration → Prop} {since : Int}
  {registrations : Nat → List Registration} {found : Nat → List UUID}

/-- What matches still matches at later requests. -/
theorem Answers.mem_of_le (h : Answers selected since registrations found) {uuid : UUID} {i j : Nat}
    (hle : i ≤ j) (hu : uuid ∈ found i) : uuid ∈ found j := by
  induction hle with
  | refl => exact hu
  | step _ ih =>
    obtain ⟨r, hr, huuid, hselected, hsince⟩ := (h.lists _ uuid).mp ih
    exact (h.lists _ uuid).mpr ⟨r, (h.grows _).subset hr, huuid, hselected, hsince⟩

/-- A call that returns got an empty page, and returns what was on the pages
before that. -/
theorem returned {fuel request : Nat} {changed result : List UUID}
    (hrequested : Requested found request)
    (hret : getChangedUuids found fuel request changed = some result) :
    ∃ last, request ≤ last ∧ Requested found last ∧
      search (found last) (last * pageLimit) = [] ∧ ∀ uuid, uuid ∈ result ↔
        uuid ∈ changed ∨ ∃ i, request ≤ i ∧ i < last ∧ OnPage found uuid i := by
  induction fuel generalizing request changed with
  | zero => cases hret
  | succ fuel ih =>
    unfold getChangedUuids at hret
    dsimp only at hret
    by_cases hempty : search (found request) (request * pageLimit) = []
    · rw [if_pos hempty] at hret
      obtain rfl := Option.some.inj hret
      refine ⟨request, le_rfl, hrequested, hempty, fun uuid => ⟨Or.inl, ?_⟩⟩
      rintro (hmem | ⟨i, hle, hlt, _⟩)
      · exact hmem
      · omega
    · rw [if_neg hempty] at hret
      have hnext : Requested found (request + 1) := by
        intro i hi
        rcases Nat.lt_succ_iff_lt_or_eq.mp hi with hlt | rfl
        · exact hrequested i hlt
        · exact hempty
      obtain ⟨last, hle, hlast, hnil, hmem⟩ := ih hnext hret
      refine ⟨last, Nat.le_of_succ_le hle, hlast, hnil, fun uuid => ?_⟩
      rw [hmem, List.mem_union_iff, or_assoc]
      apply or_congr_right
      constructor
      · rintro (hpage | ⟨i, hi, hlt, hpage⟩)
        · exact ⟨request, le_rfl, hle, hpage⟩
        · exact ⟨i, Nat.le_of_succ_le hi, hlt, hpage⟩
      · rintro ⟨i, hi, hlt, hpage⟩
        rcases hi.eq_or_lt with rfl | hlater
        · exact Or.inl hpage
        · exact Or.inr ⟨i, hlater, hlt, hpage⟩

/-- While it neither slips nor is on a page, an entry stays behind the cursor. -/
theorem behind_cursor {uuid : UUID} {last : Nat} (hpage : ∀ i < last, ¬ OnPage found uuid i)
    (hslips : ∀ i < last, ¬ Slips found uuid i) {i : Nat} (hi : i ≤ last) :
    uuid ∉ (found i).take (i * pageLimit) := by
  induction i with
  | zero =>
    rw [Nat.zero_mul, List.take_zero]
    exact List.not_mem_nil
  | succ i ih =>
    have hbehind : uuid ∉ (found i).take ((i + 1) * pageLimit) := by
      rw [Nat.succ_mul, mem_take_add]
      exact not_or.mpr ⟨ih (Nat.le_of_succ_le hi), hpage i hi⟩
    intro hmem
    exact hslips i hi ⟨hbehind, hmem⟩

/-- A call that returns has every UUID that matched at its first request, unless
one slips unread; and one that does is missing, if it is not moved back to where
the next page starts or later. -/
theorem complete_unless_slips (h : Answers selected since registrations found) {fuel : Nat}
    {changed : List UUID} (hret : getChangedUuids found fuel 0 [] = some changed) :
    ((∀ uuid ∈ found 0, ∀ i, Requested found (i + 1) → ¬ SlipsUnread found uuid i) →
      ∀ uuid ∈ found 0, uuid ∈ changed) ∧
    ∀ uuid i, SlipsUnread found uuid i →
      (∀ j, i < j → uuid ∉ (found j).drop (j * pageLimit)) → uuid ∉ changed := by
  obtain ⟨last, _, hlast, hnil, hmem⟩ := returned (fun i hi => absurd hi (Nat.not_lt_zero i)) hret
  constructor
  · intro hnone uuid hu
    by_contra hlost
    have hoff : ∀ i < last, ¬ OnPage found uuid i := by
      intro i hi hpage
      exact hlost ((hmem uuid).mpr (Or.inr ⟨i, Nat.zero_le i, hi, hpage⟩))
    have hslips : ∀ i < last, ¬ Slips found uuid i := by
      intro i hi hslip
      have hrequested : Requested found (i + 1) := fun j hj => hlast j (by omega)
      exact hnone uuid hu i hrequested ⟨fun j hj => hoff j (hj.trans_lt hi), hslip⟩
    have hbehind := behind_cursor hoff hslips (le_refl last)
    rw [take_of_search_nil hnil] at hbehind
    exact hbehind (h.mem_of_le (Nat.zero_le last) hu)
  · rintro uuid i ⟨hunread, _⟩ hbefore hreturned
    obtain hnone | ⟨j, _, _, hpage⟩ := (hmem uuid).mp hreturned
    · cases hnone
    · by_cases hle : j ≤ i
      · exact hunread j hle hpage
      · exact hbefore j (not_le.mp hle) (List.mem_of_mem_take (List.mem_dedup.mp hpage))

end

/-- A registration that comes in after the first request. -/
def during (early : List Registration) (late : Registration) (request : Nat) : List Registration :=
  if request = 0 then early else late :: early

/-- The list in the order of the latest registration of each UUID. -/
def byRegistration (since : Int) (registrations : List Registration) : List UUID :=
  ((registrations.filter fun r => since ≤ r.time).map Registration.uuid).reverse.dedup

theorem answers_byRegistration (since : Int) (early : List Registration) (late : Registration) :
    Answers (fun _ => True) since (during early late)
      fun i => byRegistration since (during early late i) where
  grows i := by
    cases i with
    | zero => exact List.suffix_cons late early
    | succ i => exact List.suffix_rfl
  lists i uuid := by
    simp only [byRegistration, List.mem_dedup, List.mem_reverse, List.mem_map, List.mem_filter,
      decide_eq_true_eq, true_and]
    constructor
    · rintro ⟨r, ⟨hr, htime⟩, huuid⟩
      exact ⟨r, hr, huuid, htime⟩
    · rintro ⟨r, hr, huuid, htime⟩
      exact ⟨r, ⟨hr, htime⟩, huuid⟩

/-- A second UUID is registered while the first is on its page. -/
theorem complete_unless_slips_newcomer :
    getChangedUuids (fun i => byRegistration 0 (during [⟨7, 10⟩] ⟨8, 20⟩ i)) 2 0 [] = some [7] ∧
      ∀ uuid ∈ byRegistration 0 (during [⟨7, 10⟩] ⟨8, 20⟩ 0), uuid ∈ [(7 : UUID)] := by
  have hret : getChangedUuids (fun i => byRegistration 0 (during [⟨7, 10⟩] ⟨8, 20⟩ i)) 2 0 [] =
      some [7] := by decide
  have hanswers := answers_byRegistration 0 [⟨7, 10⟩] ⟨8, 20⟩
  refine ⟨hret, (complete_unless_slips hanswers hret).1 ?_⟩
  rintro uuid hu i _ ⟨hunread, _⟩
  obtain rfl : uuid = 7 := List.mem_singleton.mp hu
  exact hunread 0 (Nat.zero_le i) (by decide)

/-- The first UUIDs, one after another. -/
def uuids (n : Nat) : List UUID := (List.range n).map fun i => BitVec.ofNat 128 i

/-- They are registered at the start of time. -/
def firstRegistrations (n : Nat) : List Registration :=
  (uuids n).reverse.map fun uuid => ⟨uuid, 0⟩

theorem mem_uuids {m n : Nat} (hm : m < 1000) (hn : n < 1000) :
    BitVec.ofNat 128 m ∈ uuids n ↔ m < n := by
  simp only [uuids, List.mem_map, List.mem_range]
  constructor
  · rintro ⟨i, hi, heq⟩
    have hnat := congrArg BitVec.toNat heq
    rw [BitVec.toNat_ofNat, BitVec.toNat_ofNat] at hnat
    omega
  · intro hlt
    exact ⟨m, hlt, rfl⟩

theorem uuids_succ (n : Nat) : uuids (n + 1) = uuids n ++ [BitVec.ofNat 128 n] := by
  rw [uuids, List.range_succ, List.map_append]
  rfl

theorem exists_uuids_cons (n : Nat) : ∃ rest, uuids (n + 1) = 0 :: rest ∧ rest.length = n := by
  rw [uuids, List.range_succ_eq_map]
  exact ⟨_, rfl, by simp⟩

theorem nodup_uuids {n : Nat} (hn : n < 1000) : (uuids n).Nodup := by
  induction n with
  | zero => exact List.nodup_nil
  | succ n ih =>
    rw [uuids_succ, List.nodup_append_comm, List.singleton_append, List.nodup_cons]
    refine ⟨?_, ih (Nat.lt_of_succ_lt hn)⟩
    rw [mem_uuids (Nat.lt_of_succ_lt hn) (Nat.lt_of_succ_lt hn)]
    exact lt_irrefl n

/-- A UUID that is registered again is listed last. -/
theorem byRegistration_first (n : Nat) (uuid : UUID) :
    byRegistration 0 (firstRegistrations n) = (uuids n).dedup ∧
      byRegistration 0 (⟨uuid, 1⟩ :: firstRegistrations n) = (uuids n ++ [uuid]).dedup := by
  have hall : (firstRegistrations n).filter (fun r => (0 : Int) ≤ r.time) =
      firstRegistrations n := by
    apply List.filter_eq_self.mpr
    intro r hr
    obtain ⟨u, _, rfl⟩ := List.mem_map.mp hr
    rfl
  have hmap : (firstRegistrations n).map Registration.uuid = (uuids n).reverse := by
    rw [firstRegistrations, List.map_map]
    exact List.map_id _
  constructor
  · rw [byRegistration, hall, hmap, List.reverse_reverse]
  · rw [byRegistration, List.filter_cons_of_pos rfl, hall, List.map_cons, hmap,
      List.reverse_cons, List.reverse_reverse]

/-- 501 UUIDs, of which the first is registered again after the first request.
The last one moves from the start of the second page to the end of the first. -/
theorem moved_entry_lost :
    let found := fun i => byRegistration 0 (during (firstRegistrations 501) ⟨0, 1⟩ i)
    Answers (fun _ => True) 0 (during (firstRegistrations 501) ⟨0, 1⟩) found ∧
      ∃ changed, getChangedUuids found 3 0 [] = some changed ∧
        ∃ uuid ∈ found 0, uuid ∉ changed := by
  intro found
  obtain ⟨hbefore, hafter⟩ := byRegistration_first 501 0
  obtain ⟨rest, hrest, hlength⟩ := exists_uuids_cons 500
  have hnodup : (uuids 501).Nodup := nodup_uuids (by decide)
  have hfound : found 0 = uuids 501 := hbefore.trans (List.dedup_eq_self.mpr hnodup)
  have hmoved : ∀ i, found (i + 1) = rest ++ [0] := by
    intro i
    refine hafter.trans ?_
    rw [hrest, List.cons_append, List.dedup_cons_of_mem (by simp), List.dedup_eq_self]
    rw [hrest] at hnodup
    exact (List.nodup_append_comm).mpr hnodup
  have hfirst : ∀ uuid, uuid ∈ search (found 0) (0 * pageLimit) ↔ uuid ∈ uuids 500 := by
    intro uuid
    have htake : (uuids 500 ++ [BitVec.ofNat 128 500]).take pageLimit = uuids 500 :=
      List.take_left' (by simp [uuids, pageLimit])
    rw [search, hfound, uuids_succ, Nat.zero_mul, List.drop_zero, List.mem_dedup, htake]
  have hsecond : search (found 1) (1 * pageLimit) = [0] := by
    have hdrop : (rest ++ [0]).drop (1 * pageLimit) = [0] := List.drop_left' hlength
    rw [search, hmoved 0, hdrop]
    rfl
  have hthird : search (found 2) (2 * pageLimit) = [] := by
    rw [search, hmoved 1, List.drop_eq_nil_iff.mpr (by simp [hlength, pageLimit])]
    rfl
  have hsome : search (found 0) (0 * pageLimit) ≠ [] :=
    List.ne_nil_of_mem ((hfirst (BitVec.ofNat 128 0)).mpr ((mem_uuids (by decide) (by decide)).mpr
      (by decide)))
  refine ⟨answers_byRegistration 0 _ _,
    ([] ∪ search (found 0) (0 * pageLimit)) ∪ search (found 1) (1 * pageLimit), ?_,
    BitVec.ofNat 128 500, ?_, ?_⟩
  · have hmore : search (found 1) (1 * pageLimit) ≠ [] := by
      rw [hsecond]
      exact List.cons_ne_nil _ _
    rw [getChangedUuids, if_neg hsome, getChangedUuids, if_neg hmore, getChangedUuids,
      if_pos hthird]
  · rw [hfound]
    exact (mem_uuids (by decide) (by decide)).mpr (by decide)
  · simp only [List.mem_union_iff, List.not_mem_nil, false_or, hfirst, hsecond, List.mem_singleton]
    rintro (hmem | hzero)
    · exact absurd ((mem_uuids (by decide) (by decide)).mp hmem) (lt_irrefl 500)
    · exact absurd hzero (by decide)

end Os2moFkk.EventGenerator
