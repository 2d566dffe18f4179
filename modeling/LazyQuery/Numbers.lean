/-!
# Powers, sums and products of numbers

Bounds of words, parts of floats and sizes of tables are written with powers of two and with sums and
products of lists. They stand for the operations of the core library. A module that has more algebra at
hand would read them through it: the same numbers, in terms of another form. With `open scoped Numbers`
the reading is one and the same everywhere.
-/

set_option autoImplicit false

namespace LazyQuery.Numbers

attribute [scoped instance (high)] instPowNat Zero.ofOfNat0 One.ofOfNat1

-- Where the exponent is a numeral, an instance is chosen before the type of the numeral is known.
attribute [default_instance (high + 1)] instPowNat

end LazyQuery.Numbers
