/-!
# Powers

Numbers have powers of their own, and a library of algebra gives every monoid powers. The two are
equal; the numbers' own are meant everywhere, whether or not a module knows the others.
-/

attribute [instance (high), default_instance (high + 1)] instPowNat
