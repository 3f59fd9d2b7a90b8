import Mathlib
import TaskNetwork.Proofs.Domain.Validity
import TaskNetwork.Source.Domain

/-! The method to start from. A mark is kept by the name of its method and looked up among the
methods without parameters. A marked method without parameters is the one to start from; a marked
method with parameters is refused, unless another method of its name has none, which is then started
from in its place. -/

namespace TaskNetwork

namespace Declaration

section Marks

variable {methods : List Method} {marks : List Symbol} {name : Symbol} {m : Method}

theorem eq_of_name_params (hdistinct : (methods.map fun m => (m.name, m.arity)).Nodup)
    {m' : Method} (hm : m ∈ methods) (hm' : m' ∈ methods) (hname : m.name = m'.name)
    (hparams : m.params = m'.params) : m = m' :=
  List.inj_on_of_nodup_map hdistinct hm hm' (Prod.ext hname (congrArg List.length hparams))

theorem findIdx?_start_iff (hdistinct : (methods.map fun m => (m.name, m.arity)).Nodup)
    {place : Nat} : (methods.findIdx? fun m => m.name == name && m.arity == 0) = some place ↔
      ∃ m, methods[place]? = some m ∧ m.name = name ∧ m.params = [] := by
  have hfits (m : Method) :
      (m.name == name && m.arity == 0) = true ↔ m.name = name ∧ m.params = [] := by
    simp [Method.arity]
  rw [List.findIdx?_eq_some_iff_getElem]
  constructor
  · rintro ⟨hlt, hfound, -⟩
    exact ⟨_, List.getElem?_eq_getElem hlt, (hfits _).mp hfound⟩
  · rintro ⟨m, hm, hkey⟩
    obtain ⟨hlt, rfl⟩ := List.getElem?_eq_some_iff.mp hm
    refine ⟨hlt, (hfits _).mpr hkey, fun j hj hfound => ?_⟩
    have hkey' := (hfits _).mp hfound
    -- Two places of one signature are the same.
    have hsame : methods[j] = methods[place] := eq_of_name_params hdistinct
      (List.getElem_mem _) (List.getElem_mem _) (hkey'.1.trans hkey.1.symm)
      (hkey'.2.trans hkey.2.symm)
    exact absurd ((hdistinct.of_map _).getElem_inj_iff.mp hsame) (Nat.ne_of_lt hj)

/-- Without a mark there is no method to start from. With one there has to be a method without
parameters of the marked name, and with more there is an error. -/
theorem startPlace_eq_ok_iff (hdistinct : (methods.map fun m => (m.name, m.arity)).Nodup)
    {start : Option Nat} : startPlace (Domain.indexMethods 0 methods) marks = .ok start ↔
      marks = [] ∧ start = none ∨ ∃ place m, methods[place]? = some m ∧ m.params = [] ∧
        marks = [m.name] ∧ start = some place := by
  have hindex (mark : Symbol) : (Domain.indexMethods 0 methods).get? (mark, 0) =
      methods.findIdx? fun m => m.name == mark && m.arity == 0 := by
    simp [Domain.get?_indexMethods]
  fun_cases startPlace (Domain.indexMethods 0 methods) marks with
  | case1 => simp [eq_comm]
  | case2 mark place hfind =>
    rw [hindex] at hfind
    constructor
    · rintro ⟨⟩
      obtain ⟨m, hm, rfl, hparams⟩ := (findIdx?_start_iff hdistinct).mp hfind
      exact .inr ⟨place, m, hm, hparams, rfl, rfl⟩
    · rintro (⟨⟨⟩, -⟩ | ⟨place', m, hm, hparams, hname, rfl⟩)
      have hfound := (findIdx?_start_iff hdistinct).mpr
        ⟨m, hm, (List.singleton_inj.mp hname).symm, hparams⟩
      rw [Option.some.inj (hfind.symm.trans hfound)]
  | case3 mark hfind =>
    constructor
    · rintro ⟨⟩
    · rintro (⟨⟨⟩, -⟩ | ⟨place, m, hm, hparams, hname, -⟩)
      have hfound := (findIdx?_start_iff hdistinct).mpr
        ⟨m, hm, (List.singleton_inj.mp hname).symm, hparams⟩
      rw [hindex, hfound] at hfind
      cases hfind
  | case4 marks hnil hone =>
    constructor
    · rintro ⟨⟩
    · rintro (⟨h, -⟩ | ⟨_, m, -, -, h, -⟩)
      · exact absurd h hnil
      · exact absurd h (hone m.name)

end Marks

section Start

variable {declarations : List Declaration} {m : Method}

theorem mem_methods_iff : m ∈ methods declarations ↔ ∃ marked, .method m marked ∈ declarations := by
  rw [methods, List.mem_filterMap]
  constructor
  · rintro ⟨x, hx, hmethod⟩
    cases x with
    | constant | clause => cases hmethod
    | method m' marked =>
      cases hmethod
      exact ⟨marked, hx⟩
  · rintro ⟨marked, hm⟩
    exact ⟨_, hm, rfl⟩

/-- Where a method is marked, declarations make a domain exactly if they are valid, no other mark is
made, and some method without parameters has the name of the marked one. -/
theorem ofDeclarations_eq_ok_iff_marked (hm : .method m true ∈ declarations) (d : Domain) :
    Domain.ofDeclarations declarations = .ok d ↔ Valid declarations ∧
      ∃ place start, (methods declarations)[place]? = some start ∧ start.params = [] ∧
        start.name = m.name ∧ marks declarations = [m.name] ∧
        d = assemble declarations (some place) := by
  have hmark : m.name ∈ marks declarations := List.mem_filterMap.mpr ⟨_, hm, rfl⟩
  rw [ofDeclarations_eq_ok_iff_start]
  refine and_congr_right fun hvalid => ?_
  simp only [startPlace_eq_ok_iff hvalid.distinct]
  constructor
  · rintro ⟨_, ⟨hnone, -⟩ | ⟨place, start, hstart, hparams, hmarks, rfl⟩, rfl⟩
    · rw [hnone] at hmark
      cases hmark
    · rw [hmarks] at hmark
      have hname : m.name = start.name := List.mem_singleton.mp hmark
      exact ⟨place, start, hstart, hparams, hname.symm, hname ▸ hmarks, rfl⟩
  · rintro ⟨place, start, hstart, hparams, hname, hmarks, rfl⟩
    exact ⟨_, .inr ⟨place, start, hstart, hparams, hname ▸ hmarks, rfl⟩, rfl⟩

theorem top_assemble {place : Nat} (hm : (methods declarations)[place]? = some m) :
    (assemble declarations (some place)).top = some (m.mapQueries (call declarations)) := by
  simp [assemble, Domain.ofLists, Domain.top, hm]

/-- A method is marked to start from it. This is so exactly if it has no parameters. One that has
some is refused, unless a method of its name without parameters is declared: then that one is
started from. -/
theorem ofDeclarations_starts (hm : .method m true ∈ declarations) {d : Domain}
    (hd : Domain.ofDeclarations declarations = .ok d) :
    (d.top = some (m.mapQueries (call declarations)) ↔ m.params = []) ∧
      ∃ start ∈ methods declarations, start.name = m.name ∧ start.params = [] ∧
        d.top = some (start.mapQueries (call declarations)) := by
  obtain ⟨hvalid, place, start, hstart, hparams, hname, -, rfl⟩ :=
    (ofDeclarations_eq_ok_iff_marked hm d).mp hd
  have hmem : start ∈ methods declarations := List.mem_of_getElem? hstart
  have htop := top_assemble hstart
  refine ⟨⟨fun hmarked => ?_, fun hnone => ?_⟩, start, hmem, hname, hparams, htop⟩
  · have hsame : start.mapQueries (call declarations) = m.mapQueries (call declarations) :=
      Option.some.inj (htop.symm.trans hmarked)
    have hparams' : (start.mapQueries (call declarations)).params =
        (m.mapQueries (call declarations)).params := by rw [hsame]
    exact hparams'.symm.trans hparams
  · have hmarked : m ∈ methods declarations := mem_methods_iff.mpr ⟨true, hm⟩
    rw [htop, eq_of_name_params hvalid.distinct hmem hmarked hname (hparams.trans hnone.symm)]

end Start

/-! Two methods of one name, of which only the first has no parameters. -/

namespace Overloaded

def stay : Method := ⟨1, ⟨2⟩, [], [⟨0, ⟨1⟩, none, [⟨⟨0⟩, []⟩]⟩]⟩

def along : Method :=
  ⟨3, ⟨2⟩, [Roads.var 3], [⟨2, ⟨5⟩, none, [⟨⟨4⟩, [Roads.var 3]⟩]⟩]⟩

def domain : Domain := .ofLists [] [] [stay, along] (some 0)

def stayMarked : List Declaration := [.method stay true, .method along false]

def alongMarked : List Declaration := [.method stay false, .method along true]

/-- The text in which the method with a parameter is marked. -/
def text : String := "method m() \x7b b: => t(); \x7d top method m(?x) \x7b c: => u(?x); \x7d"

end Overloaded

open Overloaded in
theorem ofDeclarations_starts_overloaded :
    Domain.ofDeclarations stayMarked = .ok domain ∧ domain.top = some stay := by
  have hm : Declaration.method stay true ∈ stayMarked := List.mem_cons_self
  have hd : Domain.ofDeclarations stayMarked = .ok domain := rfl
  exact ⟨hd, (ofDeclarations_starts hm hd).1.mpr rfl⟩

open Overloaded in
/-- A marked method with a parameter is not refused, and the other method of its name is started
from. -/
theorem marked_not_started :
    (Domain.read text .empty).1.toOption = some domain ∧
      Domain.ofDeclarations alongMarked = .ok domain ∧ .method along true ∈ alongMarked ∧
      along.params ≠ [] ∧ domain.top = some stay ∧ domain.top ≠ some along := by
  refine ⟨by cbv, rfl, by simp [alongMarked], by simp [along], rfl, ?_⟩
  rintro ⟨⟩

end Declaration

end TaskNetwork
