/-!
# What can go wrong

Every failure is a cause with the data it is about. `Error.message` is the one place where causes
are put into words.

* `PathError`: a path names no field of a type;
* `ValueError`: a field does not accept a value;
* `QueryError`: a filter or an update cannot be expressed;
* `SettingError`: a connection string is malformed;
* `UsageError`: an operation does not apply to the type, document or list at hand;
* `StoreError`: the store refuses a filter, an update or a document.
-/

namespace DocumentMapper

/-- Why a path does not lead to a field. -/
inductive PathError where
  /-- No field has the name. -/
  | unknown (name : String)
  /-- The path goes through a reference. -/
  | join (path : String)
  /-- A value without parts is asked for one. -/
  | subfield (segment field : String)
  /-- A document has no attribute of the name. -/
  | noAttribute (name type : String)
deriving DecidableEq

/-- The words for a path error. -/
def PathError.message : PathError → String
  | .unknown name => "Cannot resolve field \"" ++ name ++ "\""
  | .join path => "Cannot perform join in mongoDB: " ++ path
  | .subfield segment field =>
    "Cannot resolve subfield or operator " ++ segment ++ " on the field " ++ field
  | .noAttribute name type =>
    "The field \"" ++ name ++ "\" does not exist on the document \"" ++ type ++ "\""

/-- Why a field does not accept a value. -/
inductive ValueError where
  | required
  /-- The rule of the field is against it, in these words. -/
  | rule (words : String)
  | otherDocument (expected got : String)
  | notEmbedded (got : String)
  | notList (got : String)
  | notDict (got : String)
  | dictKey (key : String)
  | notScalar (got scalar : String)
  | notDatetime (text : String)
  | notPair
  | notGeometry
  | notReference (got : String)
  | notQualified (got : String)
  | unsaved
  | embeddedTarget
  | notInteger (text : String)
  | notNumber (text : String)
deriving DecidableEq

/-- The words for a value error. -/
def ValueError.message : ValueError → String
  | .required => "Field is required"
  | .rule words => words
  | .otherDocument expected got =>
    "Invalid embedded document instance provided: expected " ++ expected ++ ", got " ++ got
  | .notEmbedded got => "Expected an embedded document, got " ++ got
  | .notList got => "Expected a list, got " ++ got
  | .notDict got => "Expected a dict, got " ++ got
  | .dictKey key =>
    "Invalid dictionary key '" ++ key ++ "': must not contain '.' or start with '$'"
  | .notScalar got scalar => "Cannot store " ++ got ++ " in a " ++ scalar ++ " field"
  | .notDatetime text => "Invalid datetime '" ++ text ++ "'"
  | .notPair => "GeoPoint must be a two-dimensional [x, y] pair"
  | .notGeometry => "GeoJSON value needs 'type' and 'coordinates'"
  | .notReference got => "Cannot store " ++ got ++ " as a reference"
  | .notQualified got =>
    "Generic references need a document or a collection-qualified reference, got " ++ got
  | .unsaved => "You can only reference documents once they have been saved to the database"
  | .embeddedTarget => "Embedded documents cannot be referenced"
  | .notInteger text => "'" ++ text ++ "' is not an integer"
  | .notNumber text => "'" ++ text ++ "' is not a number"

/-- Why a filter or an update cannot be expressed. -/
inductive QueryError where
  /-- A condition or operation names no field. -/
  | path (cause : PathError)
  /-- A sort key or a selected field names no field. -/
  | selection (cause : PathError)
  | notDocument (key got : String)
  | noField (key : String)
  | operandList (operator : String)
  | geoOperator (operator field : String)
  | geometryKeys
  | geometryData
  | updateOperator (key operators : String)
  | notNumeric (key got : String)
  | updateList (operator got : String)
  | filterWithId
  | emptyUpdate
deriving DecidableEq

/-- The words for a query error. -/
def QueryError.message : QueryError → String
  | .path cause => cause.message
  | .selection cause => "Lookup error: " ++ cause.message
  | .notDocument key got => key ++ " expects a document, got " ++ got
  | .noField key => (PathError.unknown key).message
  | .operandList operator => "The __" ++ operator ++ " operator must be called with a list"
  | .geoOperator operator field =>
    "Geo method \"" ++ operator ++ "\" is not supported on field \"" ++ field ++ "\""
  | .geometryKeys => "Invalid $geometry dictionary should have type and coordinates keys"
  | .geometryData => "Invalid $geometry data. Can be either a dictionary or (nested) lists of "
      ++ "coordinate(s)"
  | .updateOperator key operators =>
    "Update \"" ++ key ++ "\" does not start with an update operator (" ++ operators ++ ")"
  | .notNumeric key got => "\"" ++ key ++ "\" needs a numeric value, got " ++ got
  | .updateList operator got => operator ++ " expects a list, got " ++ got
  | .filterWithId => "Cannot use a filter whilst using `with_id`"
  | .emptyUpdate => "No update parameters, would remove data"

/-- Why a connection string is malformed. -/
inductive SettingError where
  | scheme (expected : String)
  | location
  | noDatabase
  | port (text : String)
  | parameter (text : String)
  | value (key text : String)
  | unknownParameter (key : String)
deriving DecidableEq

/-- The words for a setting error. -/
def SettingError.message : SettingError → String
  | .scheme expected => "URL must start with '" ++ expected ++ "'"
  | .location => "Invalid host/database format"
  | .noDatabase => "Database name cannot be empty"
  | .port text => "Invalid port '" ++ text ++ "'"
  | .parameter text => "Invalid parameter '" ++ text ++ "'"
  | .value key text => "Invalid " ++ key ++ " '" ++ text ++ "'"
  | .unknownParameter key => "Unknown parameter '" ++ key ++ "'"

/-- Why an operation does not apply. -/
inductive UsageError where
  | setting (cause : SettingError)
  | embeddedKey (type key : String)
  | emptyCollection (type : String)
  | fieldTwice (field type : String)
  | storageNameTwice (name type : String)
  | unmarkedId (type : String)
  | keyNotField (key type : String)
  | noKey (type : String)
  | holdsOther (field got wanted : String)
  | notDeclared (field container : String)
  | notSet (field : String)
  | assignIndex (index length : Nat)
  | outside (index : Nat)
  | notInList (shown : String)
  | saveEmbedded (type : String)
  | queryEmbedded (type : String)
deriving DecidableEq

/-- The words for a usage error. -/
def UsageError.message : UsageError → String
  | .setting cause => "config: " ++ cause.message
  | .embeddedKey type key =>
    "Embedded document '" ++ type ++ "' cannot declare primary key '" ++ key ++ "'"
  | .emptyCollection type => "Document '" ++ type ++ "' has an empty collection name"
  | .fieldTwice field type => "Field '" ++ field ++ "' is declared twice on '" ++ type ++ "'"
  | .storageNameTwice name type =>
    "Storage name '" ++ name ++ "' is used twice on '" ++ type ++ "'"
  | .unmarkedId type =>
    "Document '" ++ type ++ "' declares an 'id' field without marking it as primary key"
  | .keyNotField key type => "Primary key '" ++ key ++ "' is not a field of '" ++ type ++ "'"
  | .noKey type => "'" ++ type ++ "' has no primary key"
  | .holdsOther field got wanted => "Field '" ++ field ++ "' holds a " ++ got ++ ", not " ++ wanted
  | .notDeclared field container =>
    "Field '" ++ field ++ "' is not declared as a " ++ container
  | .notSet field => "Field '" ++ field ++ "' is not set"
  | .assignIndex index length =>
    "list assignment index " ++ toString index ++ " out of range for list of length "
      ++ toString length
  | .outside index => "list index " ++ toString index ++ " out of range"
  | .notInList shown => shown ++ " is not in list"
  | .saveEmbedded type => "Embedded document '" ++ type ++ "' cannot be saved on its own"
  | .queryEmbedded type => "Embedded document '" ++ type ++ "' has no collection to query"

/-- Why the store refuses. -/
inductive StoreError where
  | nesting (limit : Nat)
  | topLevelOperator (operator : String)
  | operandArray (operator : String)
  | clauseDocuments (operator : String)
  | size
  | filterOperator (operator : String)
  | patternText
  | pattern
  | modulus
  | updateDocument (operator : String)
  | updateOperator (operator : String)
  | numeric (operator : String)
  | renameTarget
  | positional
  | arrayPart (segment path : String)
  | scalarPart (segment path : String)
  | nullTarget (operator path : String)
  | arrayTarget (operator path : String)
  | duplicateKey (id : String)
deriving DecidableEq

/-- The words for a store error. -/
def StoreError.message : StoreError → String
  | .nesting limit => "query nesting exceeds " ++ toString limit ++ " levels"
  | .topLevelOperator operator => "unsupported top-level operator " ++ operator
  | .operandArray operator => operator ++ " needs an array"
  | .clauseDocuments operator => operator ++ " clauses must be documents"
  | .size => "$size needs a non-negative integer"
  | .filterOperator operator => "unsupported operator " ++ operator
  | .patternText => "$regex needs a string pattern"
  | .pattern => "Invalid $regex pattern"
  | .modulus => "$mod needs [divisor, remainder] with a non-zero divisor"
  | .updateDocument operator => operator ++ " needs a document"
  | .updateOperator operator => "unsupported update operator " ++ operator
  | .numeric operator => operator ++ " needs numeric values"
  | .renameTarget => "$rename needs a target name"
  | .positional => "The positional operator did not find the match needed from the query"
  | .arrayPart segment path =>
    "cannot use the part '" ++ segment ++ "' to traverse the array in '" ++ path ++ "'"
  | .scalarPart segment path =>
    "cannot create field '" ++ segment ++ "' in element of '" ++ path ++ "'"
  | .nullTarget operator path => operator ++ " target '" ++ path ++ "' is null"
  | .arrayTarget operator path =>
    "The field '" ++ path ++ "' must be an array to apply " ++ operator
  | .duplicateKey id => "duplicate key error: _id " ++ id

/-- What went wrong. -/
inductive Error where
  | lookup (cause : PathError)
  | invalidQuery (cause : QueryError)
  | validation (field : String) (cause : ValueError)
  | notRegistered (type : String)
  | alreadyRegistered (type : String)
  | doesNotExist (type : String)
  | multipleFound (count : Nat)
  | operation (cause : UsageError)
  | store (cause : StoreError)
  /-- A binary64 value that is no number cannot be stored. -/
  | float (shown : String)
  /-- A settings document is malformed. -/
  | settings
deriving DecidableEq

/-- The words for an error. -/
def Error.message : Error → String
  | .lookup cause => "Lookup error: " ++ cause.message
  | .invalidQuery cause => "Invalid query: " ++ cause.message
  | .validation field cause =>
    "Validation error on field '" ++ field ++ "': " ++ cause.message
  | .notRegistered type => "Document type '" ++ type ++ "' is not registered"
  | .alreadyRegistered type => "Document type '" ++ type ++ "' is already registered"
  | .doesNotExist type => type ++ " matching query does not exist"
  | .multipleFound count => toString count ++ " items returned, instead of 1"
  | .operation cause => "Operation error: " ++ cause.message
  | .store cause => "Driver error: " ++ cause.message
  | .float shown => "Serialization error: cannot encode float " ++ shown
  | .settings => "Serialization error"

end DocumentMapper
