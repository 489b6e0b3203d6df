/-
What is asked of a mapper's models by name: a request is one of the operations
with its arguments. What it comes to is an outcome together with the steps that
the source holds afterwards, which it may have more of also when the request
fails.
-/
import GraphMapper.Query.Builder

namespace GraphMapper

inductive Request where
  | query (filter : Value)
  | count (filter : Value)
  | presence (id : Value)
  | drop (filter : Value)
  | create (record : Value)
  | replace (id record : Value)
  | update (filter record : Value)

namespace Request

/-- The operation that is asked for. -/
def operation (m : Model) : Request → Build Unit
  | .query filter => Query.query m filter
  | .count filter => Query.count m filter
  | .presence id => Query.presence m id
  | .drop filter => Query.drop m filter
  | .create record => Query.create m record
  | .replace id record => Query.replace m id record
  | .update filter record => Query.update m filter record

/-- A request about the model of a name, behind the steps of a source. -/
def build (r : Registry) (name : Option String) (request : Request)
    (source : List Step) :
    Checked Unit × List Step :=
  match r.get name with
  | .error e => (.error e, source)
  | .ok m => (request.operation m).runFrom source

end Request

end GraphMapper
