namespace DeviceLink.Ordered

variable {α β : Type} [LT α] [DecidableLT α]

def insert (a : α) : List α → List α
  | [] => [a]
  | b :: rest => if a < b then a :: b :: rest else if b < a then b :: insert a rest else b :: rest

def ofList (xs : List α) : List α :=
  xs.foldr insert []

def put (key : α) (value : β) : List (α × β) → List (α × β)
  | [] => [(key, value)]
  | (k, v) :: rest =>
    if key < k then (key, value) :: (k, v) :: rest
    else if k < key then (k, v) :: put key value rest
    else (key, value) :: rest

def table (bindings : List (α × β)) : List (α × β) :=
  bindings.foldl (fun t b => put b.1 b.2 t) []

end DeviceLink.Ordered
