import Xv6Duo.Fs.Directory

/-!
# Requests to a directory

`dirlink`, `unlink` at the offset that `dirlookup` finds, and `dirlookup` itself, in any order. What
they answer and leave behind is what the operations of a finite map from names to inode numbers
answer and leave behind.
-/

namespace Xv6Duo
namespace Fs

open ByteBlock

/-- What is asked of a directory. -/
inductive Request where
  /-- `dirlink`. -/
  | link (name : Bytes) (inum : UInt32) (type : UInt16)
  /-- `dirlookup`, and `unlink` at the offset that it finds. -/
  | unlink (name : Bytes)
  /-- `dirlookup`. -/
  | lookup (name : Bytes)

/-- What a directory answers. -/
inductive Answer where
  /-- The result of `dirlink`. -/
  | linked (result : Int)
  /-- The result of `unlink`, if the name has been found. -/
  | unlinked (result : Option Int)
  /-- The inode number that has been found. -/
  | found (inum : Option UInt32)
  deriving DecidableEq

/-! ## Finite maps -/

/-- A map from names to inode numbers. -/
abbrev NameMap : Type := List UInt8 → Option UInt32

namespace NameMap

/-- What a map answers. -/
def answer (map : NameMap) : Request → Answer
  | .link name _ _ => .linked (if (map (nameOf name)).isSome then -1 else 0)
  | .unlink name => .unlinked ((map (nameOf name)).map fun _ => 0)
  | .lookup name => .found (map (nameOf name))

/-- The map after a request. -/
def after (map : NameMap) : Request → NameMap
  | .link name inum _ =>
      if (map (nameOf name)).isSome then map else Function.update map (nameOf name) (some inum)
  | .unlink name => Function.update map (nameOf name) none
  | .lookup _ => map

/-- The request puts a new name into the map. -/
def Adds (map : NameMap) : Request → Prop
  | .link name _ _ => map (nameOf name) = none
  | _ => False

/-- The request takes a name out of the map. -/
def Removes (map : NameMap) : Request → Prop
  | .unlink name => map (nameOf name) ≠ none
  | _ => False

end NameMap

/-- An entry is linked to an inode, whose number is positive. -/
def Request.Valid : Request → Prop
  | .link _ inum _ => inum ≠ 0
  | _ => True

namespace Volume

variable {sb : Superblock} {v w : Volume} {i : UInt32} {s : State}

/-- The map that a directory holds. -/
def names (sb : Superblock) (v : Volume) (i : UInt32) : NameMap := SlotTable.lookup (v.slots sb i)

/-- A request is served by directory `i`. -/
def serve (sb : Superblock) (v : Volume) (i : UInt32) : Request → Except Fault (Answer × Volume)
  | .link name inum type => do
      let (r, dp, s) ← dirlink sb v.state (v.inodes i) name inum type
      return (.linked r, ⟨s, Function.update v.inodes i dp⟩)
  | .unlink name => do
      match ← dirlookup sb v.state (v.inodes i) name with
      | (none, dp, s) => return (.unlinked none, ⟨s, Function.update v.inodes i dp⟩)
      | (some (_, off), dp, s) =>
          let (r, dp, s) ← unlink sb s dp off
          return (.unlinked (some r), ⟨s, Function.update v.inodes i dp⟩)
  | .lookup name => do
      let (found, dp, s) ← dirlookup sb v.state (v.inodes i) name
      return (.found (found.map Prod.fst), ⟨s, Function.update v.inodes i dp⟩)

/-- A directory serves a request as its map does. -/
structure Served (sb : Superblock) (v w : Volume) (i : UInt32) (request : Request)
    (answer : Answer) : Prop where
  /-- The result is that of the map. -/
  answer : answer = (v.names sb i).answer request
  /-- It is a directory with distinct names. -/
  directory : w.Directory sb i
  /-- The names afterwards are those of the map. -/
  names : w.names sb i = (v.names sb i).after request
  /-- A request that neither adds nor removes a name changes nothing. -/
  unchanged : ¬(v.names sb i).Adds request → ¬(v.names sb i).Removes request →
    w.state.disk = v.state.disk ∧ w.inodes = v.inodes
  /-- The directory grows by an entry if a name is added and no slot is free. -/
  grows : (v.names sb i).Adds request → none ∉ v.slots sb i →
    (w.inodes i).size.toNat = (v.inodes i).size.toNat + 64
  /-- Else its size stays. -/
  keeps : ¬((v.names sb i).Adds request ∧ none ∉ v.slots sb i) →
    (w.inodes i).size = (v.inodes i).size
  /-- Other files keep their bytes. -/
  others : ∀ j, j ≠ i → v.Live sb j → w.content sb j = v.content sb j

theorem find_eq_none_iff {name : List UInt8} :
    SlotTable.find (v.slots sb i) name = none ↔ v.names sb i name = none := by
  rw [names, SlotTable.lookup, Option.map_eq_none_iff]

theorem names_of_find {name : List UInt8} {slot : Nat × UInt32}
    (found : SlotTable.find (v.slots sb i) name = some slot) :
    v.names sb i name = some slot.2 := by
  rw [names, SlotTable.lookup, found, Option.map_some]

/-- A request that is answered after a scan alone. -/
theorem Directory.served_of_scan (dir : v.Directory sb i) (scanned : Scanned sb v s)
    {request : Request} (adds : ¬(v.names sb i).Adds request)
    (same : (v.names sb i).after request = v.names sb i) :
    Served sb v ⟨s, v.inodes⟩ i request ((v.names sb i).answer request) where
  answer := rfl
  directory := dir.scanned scanned
  names := by rw [same, names, names, slots_of_disk i scanned.disk]
  unchanged _ _ := ⟨scanned.disk, rfl⟩
  grows added := absurd added adds
  keeps _ := rfl
  others _ _ _ := List.map_congr_left fun o _ => byte_congr scanned.disk o

/-- A new name is entered. -/
theorem Directory.served_link (dir : v.Directory sb i) {name : Bytes} {inum : UInt32}
    {type : UInt16} (absent : v.names sb i (nameOf name) = none)
    (entered : Entered sb v w i (SlotTable.freeFrom 0 (v.slots sb i)) (some (nameOf name, inum))) :
    Served sb v w i (.link name inum type) (.linked 0) := by
  have bounds : 0 ≤ SlotTable.freeFrom 0 (v.slots sb i) ∧
      SlotTable.freeFrom 0 (v.slots sb i) ≤ 0 + (v.slots sb i).length := SlotTable.freeFrom_le
  have size := dir.size
  have inside_free (inside : SlotTable.freeFrom 0 (v.slots sb i) < (v.slots sb i).length) :
      (v.slots sb i)[SlotTable.freeFrom 0 (v.slots sb i)]? = some none := by
    have free : (v.slots sb i)[SlotTable.freeFrom 0 (v.slots sb i) - 0]? = some none :=
      SlotTable.freeFrom_free (by omega)
    rwa [Nat.sub_zero] at free
  have slots := entered.slots
  constructor
  · simp [NameMap.answer, absent]
  · apply dir.entered entered
    rw [slots]
    exact dir.distinct.enter absent (by omega) inum
  · rw [NameMap.after, absent]
    simp only [Option.isSome_none, Bool.false_eq_true, if_false]
    rw [names, slots]
    exact SlotTable.lookup_enter dir.distinct absent (by omega) inside_free inum
  · exact fun adds => absurd absent adds
  · intro _ full
    rw [entered.size]
    cases Nat.lt_or_ge (SlotTable.freeFrom 0 (v.slots sb i)) (v.slots sb i).length with
    | inl inside => exact absurd (List.mem_of_getElem? (inside_free inside)) full
    | inr beyond => omega
  · intro not_full
    apply UInt32.toNat_inj.mp
    rw [entered.size]
    cases Nat.lt_or_ge (SlotTable.freeFrom 0 (v.slots sb i)) (v.slots sb i).length with
    | inl inside => omega
    | inr beyond =>
        exact absurd ⟨absent, SlotTable.freeFrom_end (k := 0) (by omega)⟩ not_full
  · exact fun j differ live => entered.content_other j differ live

/-- The slot of a name is freed. -/
theorem Directory.served_unlink (dir : v.Directory sb i) {name : Bytes} {slot : Nat × UInt32}
    (found : SlotTable.find (v.slots sb i) (nameOf name) = some slot)
    (entered : Entered sb v w i slot.1 none) :
    Served sb v w i (.unlink name) (.unlinked (some 0)) := by
  have present := names_of_find found
  have k_lt := SlotTable.find_lt found
  have size := dir.size
  have slots := entered.slots
  constructor
  · simp [NameMap.answer, present]
  · apply dir.entered entered
    rw [slots]
    exact dir.distinct.free (Nat.le_of_lt k_lt)
  · rw [names, slots]
    exact SlotTable.lookup_free dir.distinct (SlotTable.find_eq_some found)
  · intro _ not_removed
    refine absurd ?_ not_removed
    rw [NameMap.Removes, present]
    exact Option.some_ne_none _
  · exact fun no => no.elim
  · intro _
    apply UInt32.toNat_inj.mp
    rw [entered.size]
    omega
  · exact fun j differ live => entered.content_other j differ live

/-- Every request is served as the map serves it, if there is room for new entries. -/
theorem Directory.serve (dir : v.Directory sb i) {request : Request} (valid : request.Valid)
    (roomy : (v.names sb i).Adds request → none ∉ v.slots sb i → v.Roomy sb i) :
    ∃ answer w, v.serve sb i request = .ok (answer, w) ∧ Served sb v w i request answer := by
  cases request with
  | link name inum type =>
      cases found : SlotTable.find (v.slots sb i) (nameOf name) with
      | none =>
          have absent := find_eq_none_iff.mp found
          obtain ⟨ip, t, run, entered⟩ := dirlink_absent dir found valid type (roomy absent)
          refine ⟨_, _, ?_, dir.served_link absent entered⟩
          rw [Volume.serve, run]
          rfl
      | some slot =>
          have present := names_of_find found
          obtain ⟨t, run, scanned⟩ := dirlink_present dir found inum type
          refine ⟨_, _, ?_, dir.served_of_scan scanned ?_ ?_⟩
          · rw [Volume.serve, run, NameMap.answer, present]
            simp only [Except.ok_bind, Function.update_eq_self, Option.isSome_some, if_true]
            rfl
          · rw [NameMap.Adds, present]
            exact Option.some_ne_none _
          · rw [NameMap.after, present, Option.isSome_some, if_pos rfl]
  | unlink name =>
      obtain ⟨t, lookup, scanned⟩ := dirlookup_spec dir name
      cases found : SlotTable.find (v.slots sb i) (nameOf name) with
      | none =>
          have absent := find_eq_none_iff.mp found
          refine ⟨_, _, ?_, dir.served_of_scan scanned id ?_⟩
          · rw [Volume.serve, lookup, NameMap.answer, found, absent]
            simp only [Except.ok_bind, Option.map_none, Function.update_eq_self]
            rfl
          · rw [NameMap.after, ← absent, Function.update_eq_self]
      | some slot =>
          obtain ⟨ip, u, run, entered⟩ := unlink_spec dir scanned (SlotTable.find_lt found)
          refine ⟨_, _, ?_, dir.served_unlink found entered⟩
          rw [Volume.serve, lookup, found]
          simp only [Except.ok_bind, Option.map_some, located, run]
          rfl
  | lookup name =>
      obtain ⟨t, run, scanned⟩ := dirlookup_spec dir name
      refine ⟨_, _, ?_, dir.served_of_scan scanned id rfl⟩
      rw [Volume.serve, run, NameMap.answer, names, SlotTable.lookup]
      simp only [Except.ok_bind, Function.update_eq_self, Option.map_map]
      rfl

/-! ## Sequences of requests -/

/-- Whenever a name is added in a sequence of requests and no slot is free, there is room. -/
def NeverFull (sb : Superblock) (i : UInt32) : Volume → List Request → Prop
  | _, [] => True
  | v, request :: requests =>
      ((v.names sb i).Adds request → none ∉ v.slots sb i → v.Roomy sb i) ∧
        ∀ answer w, v.serve sb i request = .ok (answer, w) → NeverFull sb i w requests

/-- A sequence of requests is served, each as the map of the directory serves it. -/
inductive Serves (sb : Superblock) (i : UInt32) : Volume → List Request → Volume → Prop
  /-- There is no request left. -/
  | done (v : Volume) : Serves sb i v [] v
  /-- A request is served before the others. -/
  | next {v w x : Volume} {request : Request} {requests : List Request} {answer : Answer}
      (run : v.serve sb i request = .ok (answer, w)) (served : Served sb v w i request answer)
      (rest : Serves sb i w requests x) : Serves sb i v (request :: requests) x

/-- A directory with distinct names is a finite map from names to inode numbers. -/
theorem directory_is_map {requests : List Request} (dir : v.Directory sb i)
    (valid : ∀ request ∈ requests, request.Valid) (room : NeverFull sb i v requests) :
    ∃ w, Serves sb i v requests w ∧ w.Directory sb i ∧
      w.names sb i = requests.foldl NameMap.after (v.names sb i) := by
  induction requests generalizing v with
  | nil => exact ⟨v, .done v, dir, rfl⟩
  | cons request requests ih =>
      obtain ⟨roomy, room⟩ := room
      obtain ⟨answer, w, run, served⟩ := dir.serve (valid request List.mem_cons_self) roomy
      obtain ⟨x, rest, dir_x, names⟩ := ih served.directory
        (fun other mem => valid other (List.mem_cons_of_mem _ mem)) (room answer w run)
      refine ⟨x, .next run served rest, dir_x, ?_⟩
      rw [names, served.names, List.foldl_cons]

/-- An empty directory. -/
def emptyDir : Inode := { emptyFile with type := tDir }

theorem blank_emptyDir : Blank emptyDir := ⟨rfl, by decide, rfl, rfl⟩

theorem slots_emptyDir : (ofFile emptyDir 42).slots mkfsSuper 2 = [] := by
  rw [← List.length_eq_zero_iff, length_slots, ofFile_inode blank_emptyDir.inum]
  rfl

theorem directory_emptyDir : (ofFile emptyDir 42).Directory mkfsSuper 2 where
  wellFormed := blank_emptyDir.wellFormed
  idle := idle_binit _
  live := (blank_emptyDir.live_iff 2).mpr rfl
  type := by rw [ofFile_inode blank_emptyDir.inum]; rfl
  aligned := by rw [ofFile_inode blank_emptyDir.inum]; rfl
  distinct := by
    rw [slots_emptyDir]
    intro j k key value other at_j
    cases at_j

/-- A name is linked in an empty directory, looked up and unlinked. -/
theorem emptyDir_is_map : ∃ w,
    Serves mkfsSuper 2 (ofFile emptyDir 42)
      [.link (fun k => if k = 0 then 97 else 0) 7 2, .lookup (fun k => if k = 0 then 97 else 0),
        .unlink (fun k => if k = 0 then 97 else 0)] w ∧
      w.Directory mkfsSuper 2 ∧
      w.names mkfsSuper 2 = [.link (fun k => if k = 0 then 97 else 0) 7 2,
        .lookup (fun k => if k = 0 then 97 else 0),
        .unlink (fun k => if k = 0 then 97 else 0)].foldl NameMap.after
          ((ofFile emptyDir 42).names mkfsSuper 2) := by
  refine directory_is_map directory_emptyDir ?_ ?_
  · simp [Request.Valid]
  · have size : ((ofFile emptyDir 42).inodes 2).size = 0 := by
      rw [ofFile_inode blank_emptyDir.inum]
      rfl
    refine ⟨fun _ _ => ⟨?_, ?_⟩, fun _ _ _ => ⟨fun no => no.elim, fun _ _ _ => ⟨fun no => no.elim,
      fun _ _ _ => trivial⟩⟩⟩
    · rw [size]
      exact ofFile_room (by decide)
    · rw [size]
      decide

end Volume

end Fs
end Xv6Duo
