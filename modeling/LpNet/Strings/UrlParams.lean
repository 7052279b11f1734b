import LpNet.Strings.Match
import LpNet.Strings.Split
import Mathlib.Data.Finmap

/-!
`string_api::parse_url_params`.

What is behind the `?` is split at each `&`, and each piece at its first `=`. Both searches
go on at `npos + 1`, which is 0, where they find nothing: a URL without a `?` is all query,
and a parameter without a `=` is its own value. `lookup_collect` says what the map holds:
under each key the value of the first parameter that has it.
-/

namespace LpNet.StringApi

open Loop

/-- `std::unordered_map<std::string, std::string>`. -/
abbrev Params := Finmap fun _ : Text => Text

/-- `pos + 1`, which wraps for `npos`. -/
def behind : Option ℕ → ℕ
  | some pos => pos + 1
  | none => 0

/-- `ret.emplace(key, value)`: a key that is there keeps its value. -/
def emplace (ret : Params) (key value : Text) : Params :=
  match ret.lookup key with
  | some _ => ret
  | none => ret.insert key value

/-- One round of the loop over the parameters. -/
def addParam (ret : Params) (param : Text) : Except Fault Params := do
  let splitIndex := findFirstOf param '='
  let key ← match splitIndex with
    | some index => substrAt param 0 index
    | none => substrFrom param 0
  let value ← substrFrom param (behind splitIndex)
  .ok (emplace ret key value)

/-- `parse_url_params(url)`, with a number of rounds for the loop of `split`. -/
def parseUrlParams (rounds : ℕ) (url : Text) : Except Fault Params := do
  let paramString ← substrFrom url (behind (findFirstOf url '?'))
  let params ← split rounds paramString ['&']
  params.foldlM addParam ∅

/-! ### A parameter -/

def paramKey (param : Text) : Text := param.take ((findFirstOf param '=').getD param.length)

def paramValue (param : Text) : Text := param.drop (behind (findFirstOf param '='))

def parameters (url : Text) : List Text := (url.drop (behind (findFirstOf url '?'))).splitOn '&'

variable {s a b : Text} {c : Char}

theorem behind_le (s : Text) (c : Char) : behind (findFirstOf s c) ≤ s.length := by
  by_cases h : c ∈ s
  case pos =>
    obtain ⟨a, b, rfl, ha⟩ := List.eq_append_cons_of_mem h
    rw [findFirstOf_append ha]
    simp [behind]
  case neg =>
    rw [findFirstOf_absent h]
    exact Nat.zero_le _

theorem paramKey_append (h : '=' ∉ a) : paramKey (a ++ '=' :: b) = a := by
  rw [paramKey, findFirstOf_append h, Option.getD_some, List.take_left]

theorem paramValue_append (h : '=' ∉ a) : paramValue (a ++ '=' :: b) = b := by
  rw [paramValue, findFirstOf_append h, behind, ← List.drop_drop, List.drop_left]
  rfl

theorem paramKey_absent (h : '=' ∉ s) : paramKey s = s := by
  rw [paramKey, findFirstOf_absent h, Option.getD_none, List.take_length]

theorem paramValue_absent (h : '=' ∉ s) : paramValue s = s := by
  rw [paramValue, findFirstOf_absent h]
  rfl

theorem paramValue_eq_nil {param : Text} :
    paramValue param = [] ↔ param = [] ∨ param = paramKey param ++ ['='] := by
  by_cases h : '=' ∈ param
  case pos =>
    obtain ⟨a, b, rfl, ha⟩ := List.eq_append_cons_of_mem h
    rw [paramValue_append ha, paramKey_append ha]
    simp
  case neg =>
    rw [paramValue_absent h, paramKey_absent h]
    simp

theorem addParam_eq (ret : Params) (param : Text) :
    addParam ret param = .ok (emplace ret (paramKey param) (paramValue param)) := by
  have hle := behind_le param '='
  rw [addParam, substrFrom, if_pos hle, paramKey, paramValue]
  cases findFirstOf param '=' with
  | some index => simp [substrAt, substr]
  | none => simp [substrFrom]

/-! ### The map -/

def collect (params : List Text) (ret : Params) : Params :=
  params.foldl (fun ret param => emplace ret (paramKey param) (paramValue param)) ret

theorem foldlM_addParam (params : List Text) (ret : Params) :
    params.foldlM addParam ret = .ok (collect params ret) := by
  induction params generalizing ret with
  | nil => rfl
  | cons param params ih =>
      rw [List.foldlM_cons, addParam_eq, Transition.ok_bind, ih]
      rfl

theorem parseUrlParams_eq {rounds : ℕ} (url : Text) (hrounds : url.length < rounds) :
    parseUrlParams rounds url = .ok (collect (parameters url) ∅) := by
  have hlen : (url.drop (behind (findFirstOf url '?'))).length < rounds := by
    rw [List.length_drop]
    omega
  rw [parseUrlParams, substrFrom, if_pos (behind_le url '?'), Transition.ok_bind,
    split_char _ _ hlen, Transition.ok_bind, foldlM_addParam, parameters]

theorem lookup_emplace (ret : Params) (key value k : Text) : (emplace ret key value).lookup k =
    (ret.lookup k).or (if key = k then some value else none) := by
  rw [emplace]
  by_cases heq : key = k
  case pos =>
    subst heq
    rw [if_pos rfl]
    cases hkey : ret.lookup key with
    | some value' => exact hkey
    | none => exact Finmap.lookup_insert ret
  case neg =>
    rw [if_neg heq, Option.or_none]
    cases ret.lookup key with
    | some value' => rfl
    | none => exact Finmap.lookup_insert_of_ne ret (Ne.symm heq)

/-- Under each key the map holds the value of the first parameter that has it. -/
theorem lookup_collect (params : List Text) (ret : Params) (k : Text) :
    (collect params ret).lookup k = (ret.lookup k).or
      ((params.find? fun param => paramKey param = k).map paramValue) := by
  induction params generalizing ret with
  | nil => exact (Option.or_none).symm
  | cons param params ih =>
      rw [collect, List.foldl_cons, ← collect, ih, lookup_emplace, Option.or_assoc,
        List.find?_cons]
      by_cases heq : paramKey param = k
      case pos => simp [heq]
      case neg => simp [heq]

theorem lookup_parameters (url k : Text) : (collect (parameters url) ∅).lookup k =
    ((parameters url).find? fun param => paramKey param = k).map paramValue := by
  rw [lookup_collect, Finmap.lookup_empty, Option.none_or]

theorem parameters_ne_nil (url : Text) : parameters url ≠ [] := List.splitOn_ne_nil _ _

/-! ### The round trip -/

/-- A URL with its parameters: a base, and a map with an order for its entries. -/
structure QueryUrl where
  base : Text
  params : AList fun _ : Text => Text
  base_free : '?' ∉ base
  key_free : ∀ entry ∈ params.entries, '&' ∉ entry.1 ∧ '=' ∉ entry.1
  value_free : ∀ entry ∈ params.entries, '&' ∉ entry.2

namespace QueryUrl

variable (q : QueryUrl)

/-- The entries, each as `k=v`. -/
def pairs : List Text := q.params.entries.map fun entry => entry.1 ++ '=' :: entry.2

/-- The base, a `?`, and the pairs joined by `&`. -/
def url : Text := q.base ++ '?' :: ['&'].intercalate q.pairs

theorem parameters_url : parameters q.url = (['&'].intercalate q.pairs).splitOn '&' := by
  rw [parameters, url, findFirstOf_append q.base_free, behind, ← List.drop_drop, List.drop_left]
  rfl

theorem parameters_eq (h : q.params.entries ≠ []) : parameters q.url = q.pairs := by
  rw [parameters_url]
  refine List.splitOn_intercalate '&' ?_ (by simpa [pairs] using h)
  intro pair hpair
  obtain ⟨entry, hentry, rfl⟩ := List.mem_map.mp hpair
  have hkey := (q.key_free entry hentry).1
  have hvalue := q.value_free entry hentry
  simp [hkey, hvalue]

theorem find_pairs {entries : List (Sigma fun _ : Text => Text)} (k : Text)
    (hfree : ∀ entry ∈ entries, '=' ∉ entry.1) :
    (((entries.map fun entry => entry.1 ++ '=' :: entry.2).find? fun param =>
      paramKey param = k).map paramValue) = entries.dlookup k := by
  induction entries with
  | nil => rfl
  | cons entry entries ih =>
      have hentry := hfree entry (by simp)
      rw [List.map_cons, List.find?_cons, paramKey_append hentry]
      by_cases heq : entry.1 = k
      case pos =>
        subst heq
        rw [List.dlookup_cons_eq]
        simp [paramValue_append hentry]
      case neg =>
        rw [List.dlookup_cons_ne _ _ (Ne.symm heq),
          ← ih fun entry hentry => hfree entry (by simp [hentry])]
        simp [heq]

theorem collect_eq (h : q.params.entries ≠ []) :
    collect (parameters q.url) ∅ = q.params.toFinmap := by
  refine Finmap.ext_lookup fun k => ?_
  rw [lookup_parameters, q.parameters_eq h, Finmap.lookup_toFinmap]
  exact find_pairs k fun entry hentry => (q.key_free entry hentry).2

end QueryUrl

theorem collect_ne_empty (url : Text) : collect (parameters url) ∅ ≠ ∅ := by
  intro hempty
  obtain ⟨param, params, heq⟩ := List.exists_cons_of_ne_nil (parameters_ne_nil url)
  have hlookup := lookup_parameters url (paramKey param)
  rw [hempty, heq] at hlookup
  simp at hlookup

/-- With enough rounds for the loop of `split`, the URL is parsed to this map. -/
def ParsesTo (url : Text) (ret : Params) : Prop :=
  ∃ enough, ∀ rounds, enough ≤ rounds → parseUrlParams rounds url = .ok ret

theorem parsesTo_iff {url : Text} {ret : Params} :
    ParsesTo url ret ↔ collect (parameters url) ∅ = ret := by
  constructor
  · rintro ⟨enough, hall⟩
    have hok := hall (max enough (url.length + 1)) (Nat.le_max_left _ _)
    rw [parseUrlParams_eq url (Nat.le_max_right enough _)] at hok
    exact Except.ok.inj hok
  · rintro rfl
    exact ⟨url.length + 1, fun rounds hrounds => parseUrlParams_eq url hrounds⟩

/-- This parameter is in the map, with the empty value. -/
def ReadsEmpty (url param : Text) : Prop :=
  ∃ ret, ParsesTo url ret ∧ ret.lookup param = some []

theorem not_parsesTo_empty (url : Text) : ¬ ParsesTo url ∅ := fun h =>
  collect_ne_empty url (parsesTo_iff.mp h)

theorem QueryUrl.parsesTo_iff_ne_nil (q : QueryUrl) :
    ParsesTo q.url q.params.toFinmap ↔ q.params.entries ≠ [] := by
  constructor
  · intro h hnil
    have hempty : q.params = ∅ := AList.ext hnil
    rw [hempty, Finmap.empty_toFinmap] at h
    exact not_parsesTo_empty _ h
  · intro h
    exact parsesTo_iff.mpr (q.collect_eq h)

theorem readsEmpty_iff (url param : Text) : ReadsEmpty url param ↔
    ∃ first, (parameters url).find? (fun p => paramKey p = param) = some first ∧
      (first = [] ∨ first = param ++ ['=']) := by
  have hvalue : ReadsEmpty url param ↔ ∃ first,
      (parameters url).find? (fun p => paramKey p = param) = some first ∧
        paramValue first = [] := by
    rw [ReadsEmpty]
    simp only [parsesTo_iff]
    rw [exists_eq_left', lookup_parameters, Option.map_eq_some_iff]
  rw [hvalue]
  refine exists_congr fun first => and_congr_right fun hfind => ?_
  have hkey : paramKey first = param := by simpa using List.find?_some hfind
  rw [paramValue_eq_nil, hkey]

/-- The map is read back unless it is empty, no URL gives the empty map, and a parameter has the
empty value where the first one of that key is empty or ends with its `=`. -/
theorem parseUrlParams_exact (q : QueryUrl) (url param : Text) :
    (ParsesTo q.url q.params.toFinmap ↔ q.params.entries ≠ []) ∧ ¬ ParsesTo url ∅ ∧
      (ReadsEmpty url param ↔
        ∃ first, (parameters url).find? (fun p => paramKey p = param) = some first ∧
          (first = [] ∨ first = param ++ ['='])) :=
  ⟨q.parsesTo_iff_ne_nil, not_parsesTo_empty url, readsEmpty_iff url param⟩

/-- The URL `h?` of the empty map, the URL `h` without a query, and the parameter `k`. -/
theorem not_reads_back :
    ¬ ParsesTo "h?".toList ∅ ∧ ¬ ParsesTo "h".toList ∅ ∧ ¬ ReadsEmpty "h?k".toList "k".toList := by
  refine ⟨not_parsesTo_empty _, not_parsesTo_empty _, ?_⟩
  rw [readsEmpty_iff]
  rintro ⟨first, hfind, hcase⟩
  have hfirst : first = "k".toList := by
    have hkey : (parameters "h?k".toList).find? (fun p => paramKey p = "k".toList) =
        some "k".toList := by decide
    exact Option.some.inj (hfind.symm.trans hkey)
  subst hfirst
  rcases hcase with h | h
  · exact absurd h (by decide)
  · exact absurd h (by decide)

end LpNet.StringApi
